import DasTypes.Schema

/-!
# The exported classes of `cell.js`

One schema per exported class, with the class's fields or members in declaration order; a
class's `validate`, getters and `Serialize` function are the generic codec at that schema.
Table fields are listed as `buffers.push` writes them, which is also the order of the
`validate` lines and of the getters' offset words. A raw one-byte field keeps the name its
check prints. Every class is defined after the classes it refers to.
-/

namespace DasTypes

/-- `Bytes`: a payload behind its length word. -/
def Bytes : Schema := .bytes

/-- Table `ActionData`: `action`, `params`. -/
def ActionData : Schema := .table [Bytes, Bytes]

/-- `Uint8`: a 1-byte array. -/
def Uint8 : Schema := .fixed 1

/-- `Hash`: a 32-byte array. -/
def Hash : Schema := .fixed 32

/-- Table `TypeIdTable`: `account_cell`, `apply_register_cell`, `balance_cell`, `income_cell`,
`pre_account_cell`, `proposal_cell`, `account_sale_cell`, `account_auction_cell`, `offer_cell`,
`reverse_record_cell`, `sub_account_cell`, `eip712_lib`, `reverse_record_root_cell`,
`key_list_config_cell`. -/
def TypeIdTable : Schema := .table [Hash, Hash, Hash, Hash, Hash, Hash, Hash, Hash, Hash, Hash,
    Hash, Hash, Hash, Hash]

/-- `Uint32`: a 4-byte array. -/
def Uint32 : Schema := .fixed 4

/-- Struct `OutPoint`: `tx_hash`, `index`. -/
def OutPoint : Schema := .struct [Hash, Uint32]

/-- Table `DasLockOutPointTable`: `ckb_signall`, `ckb_multisign`, `ckb_anyone_can_pay`, `eth`,
`tron`, `ed25519`, `web_authn`. -/
def DasLockOutPointTable : Schema := .table [OutPoint, OutPoint, OutPoint, OutPoint, OutPoint,
    OutPoint, OutPoint]

/-- Table `DasLockTypeIdTable`: `ckb_signhash`, `ckb_multisig`, `ed25519`, `eth`, `tron`, `doge`,
`web_authn`. -/
def DasLockTypeIdTable : Schema := .table [Hash, Hash, Hash, Hash, Hash, Hash, Hash]

/-- Table `ConfigCellMain`: `status`, `type_id_table`, `das_lock_out_point_table`,
`das_lock_type_id_table`. -/
def ConfigCellMain : Schema := .table [Uint8, TypeIdTable, DasLockOutPointTable, DasLockTypeIdTable]

/-- `Uint64`: an 8-byte array. -/
def Uint64 : Schema := .fixed 8

/-- Table `ConfigCellAccount`: `max_length`, `basic_capacity`, `prepared_fee_capacity`,
`expiration_grace_period`, `record_min_ttl`, `record_size_limit`, `transfer_account_fee`,
`edit_manager_fee`, `edit_records_fee`, `common_fee`, `transfer_account_throttle`,
`edit_manager_throttle`, `edit_records_throttle`, `common_throttle`. -/
def ConfigCellAccount : Schema := .table [Uint32, Uint64, Uint64, Uint32, Uint32, Uint32, Uint64,
    Uint64, Uint64, Uint64, Uint32, Uint32, Uint32, Uint32]

/-- Table `ConfigCellApply`: `apply_min_waiting_block_number`, `apply_max_waiting_block_number`. -/
def ConfigCellApply : Schema := .table [Uint32, Uint32]

/-- Vector `Chars` of `Bytes`. -/
def Chars : Schema := .dynVec Bytes

/-- Table `DiscountConfig`: `invited_discount`. -/
def DiscountConfig : Schema := .table [Uint32]

/-- Table `PriceConfig`: `length`, `new`, `renew`. -/
def PriceConfig : Schema := .table [Uint8, Uint64, Uint64]

/-- Vector `PriceConfigList` of `PriceConfig`. -/
def PriceConfigList : Schema := .dynVec PriceConfig

/-- Table `ConfigCellPrice`: `discount`, `prices`. -/
def ConfigCellPrice : Schema := .table [DiscountConfig, PriceConfigList]

/-- Table `ConfigCellProposal`: `proposal_min_confirm_interval`, `proposal_min_extend_interval`,
`proposal_min_recycle_interval`, `proposal_max_account_affect`,
`proposal_max_pre_account_contain`. -/
def ConfigCellProposal : Schema := .table [Uint8, Uint8, Uint8, Uint32, Uint32]

/-- Table `ConfigCellProfitRate`: `inviter`, `channel`, `proposal_create`, `proposal_confirm`,
`income_consolidate`, `sale_buyer_inviter`, `sale_buyer_channel`, `sale_das`,
`auction_bidder_inviter`, `auction_bidder_channel`, `auction_das`, `auction_prev_bidder`. -/
def ConfigCellProfitRate : Schema := .table [Uint32, Uint32, Uint32, Uint32, Uint32, Uint32, Uint32,
    Uint32, Uint32, Uint32, Uint32, Uint32]

/-- Table `ConfigCellIncome`: `basic_capacity`, `max_records`, `min_transfer_capacity`. -/
def ConfigCellIncome : Schema := .table [Uint64, Uint32, Uint64]

/-- Table `ConfigCellRelease`: `lucky_number`. -/
def ConfigCellRelease : Schema := .table [Uint32]

/-- Table `ConfigCellSecondaryMarket`: `common_fee`, `sale_min_price`, `sale_expiration_limit`,
`sale_description_bytes_limit`, `sale_cell_basic_capacity`, `sale_cell_prepared_fee_capacity`,
`auction_max_extendable_duration`, `auction_duration_increment_each_bid`,
`auction_min_opening_price`, `auction_min_increment_rate_each_bid`,
`auction_description_bytes_limit`, `auction_cell_basic_capacity`,
`auction_cell_prepared_fee_capacity`, `offer_min_price`, `offer_cell_basic_capacity`,
`offer_cell_prepared_fee_capacity`, `offer_message_bytes_limit`. -/
def ConfigCellSecondaryMarket : Schema := .table [Uint64, Uint64, Uint32, Uint32, Uint64, Uint64,
    Uint32, Uint32, Uint64, Uint32, Uint32, Uint64, Uint64, Uint64, Uint64, Uint64, Uint32]

/-- Table `ConfigCellReverseResolution`: `record_basic_capacity`, `record_prepared_fee_capacity`,
`common_fee`. -/
def ConfigCellReverseResolution : Schema := .table [Uint64, Uint64, Uint64]

/-- Table `ConfigCellSubAccount`: `basic_capacity`, `prepared_fee_capacity`,
`new_sub_account_price`, `renew_sub_account_price`, `common_fee`, `create_fee`, `edit_fee`,
`renew_fee`, `recycle_fee`, `new_sub_account_custom_price_das_profit_rate`,
`renew_sub_account_custom_price_das_profit_rate`. -/
def ConfigCellSubAccount : Schema := .table [Uint64, Uint64, Uint64, Uint64, Uint64, Uint64, Uint64,
    Uint64, Uint64, Uint32, Uint32]

/-- Table `ContractStatus`: `status`, `version`. -/
def ContractStatus : Schema := .table [.byte "status", Bytes]

/-- Table `ConfigCellSystemStatus`: `apply_register_cell_type`, `pre_account_cell_type`,
`proposal_cell_type`, `config_cell_type`, `account_cell_type`, `account_sale_cell_type`,
`sub_account_cell_type`, `offer_cell_type`, `balance_cell_type`, `income_cell_type`,
`reverse_record_cell_type`, `reverse_record_root_cell_type`, `eip712_lib`. -/
def ConfigCellSystemStatus : Schema := .table [ContractStatus, ContractStatus, ContractStatus,
    ContractStatus, ContractStatus, ContractStatus, ContractStatus, ContractStatus, ContractStatus,
    ContractStatus, ContractStatus, ContractStatus, ContractStatus]

/-- Table `Script`: `code_hash`, `hash_type`, `args`. -/
def Script : Schema := .table [Hash, .byte "hash_type", Bytes]

/-- `AccountId`: a 20-byte array. -/
def AccountId : Schema := .fixed 20

/-- Table `ProposalItem`: `account_id`, `item_type`, `next`. -/
def ProposalItem : Schema := .table [AccountId, Uint8, AccountId]

/-- Vector `SL` of `ProposalItem`. -/
def SL : Schema := .dynVec ProposalItem

/-- Vector `SliceList` of `SL`. -/
def SliceList : Schema := .dynVec SL

/-- Table `ProposalCellData`: `proposer_lock`, `created_at_height`, `slices`. -/
def ProposalCellData : Schema := .table [Script, Uint64, SliceList]

/-- Table `IncomeRecord`: `belong_to`, `capacity`. -/
def IncomeRecord : Schema := .table [Script, Uint64]

/-- Vector `IncomeRecords` of `IncomeRecord`. -/
def IncomeRecords : Schema := .dynVec IncomeRecord

/-- Table `IncomeCellData`: `creator`, `records`. -/
def IncomeCellData : Schema := .table [Script, IncomeRecords]

/-- Table `AccountChar`: `char_set_name`, `bytes`. -/
def AccountChar : Schema := .table [Uint32, Bytes]

/-- Vector `AccountChars` of `AccountChar`. -/
def AccountChars : Schema := .dynVec AccountChar

/-- Table `Record`: `record_type`, `record_key`, `record_label`, `record_value`, `record_ttl`. -/
def Record : Schema := .table [Bytes, Bytes, Bytes, Bytes, Uint32]

/-- Vector `Records` of `Record`. -/
def Records : Schema := .dynVec Record

/-- Table `AccountCellDataV2`: `id`, `account`, `registered_at`, `last_transfer_account_at`,
`last_edit_manager_at`, `last_edit_records_at`, `status`, `records`. -/
def AccountCellDataV2 : Schema := .table [AccountId, AccountChars, Uint64, Uint64, Uint64, Uint64,
    Uint8, Records]

/-- Table `AccountCellData`: `id`, `account`, `registered_at`, `last_transfer_account_at`,
`last_edit_manager_at`, `last_edit_records_at`, `status`, `records`, `enable_sub_account`,
`renew_sub_account_price`. -/
def AccountCellData : Schema := .table [AccountId, AccountChars, Uint64, Uint64, Uint64, Uint64,
    Uint8, Records, Uint8, Uint64]

/-- Table `AccountSaleCellDataV1`: `account_id`, `account`, `price`, `description`, `started_at`. -/
def AccountSaleCellDataV1 : Schema := .table [AccountId, Bytes, Uint64, Bytes, Uint64]

/-- Table `AccountSaleCellData`: `account_id`, `account`, `price`, `description`, `started_at`,
`buyer_inviter_profit_rate`. -/
def AccountSaleCellData : Schema := .table [AccountId, Bytes, Uint64, Bytes, Uint64, Uint32]

/-- Table `AccountAuctionCellData`: `account_id`, `account`, `description`, `opening_price`,
`increment_rate_each_bid`, `started_at`, `ended_at`, `current_bidder_lock`, `current_bid_price`,
`prev_bidder_profit_rate`. -/
def AccountAuctionCellData : Schema := .table [AccountId, Bytes, Bytes, Uint64, Uint32, Uint64,
    Uint64, Script, Uint64, Uint32]

/-- Option `ScriptOpt` of `Script`. -/
def ScriptOpt : Schema := .option Script

/-- Table `PreAccountCellDataV1`: `account`, `refund_lock`, `owner_lock_args`, `inviter_id`,
`inviter_lock`, `channel_lock`, `price`, `quote`, `invited_discount`, `created_at`. -/
def PreAccountCellDataV1 : Schema := .table [AccountChars, Script, Bytes, Bytes, ScriptOpt,
    ScriptOpt, PriceConfig, Uint64, Uint32, Uint64]

/-- Table `PreAccountCellDataV2`: `account`, `refund_lock`, `owner_lock_args`, `inviter_id`,
`inviter_lock`, `channel_lock`, `price`, `quote`, `invited_discount`, `created_at`,
`initial_records`. -/
def PreAccountCellDataV2 : Schema := .table [AccountChars, Script, Bytes, Bytes, ScriptOpt,
    ScriptOpt, PriceConfig, Uint64, Uint32, Uint64, Records]

/-- Table `ChainId`: `checked`, `coin_type`, `chain_id`. -/
def ChainId : Schema := .table [Uint8, Uint64, Uint64]

/-- Table `PreAccountCellData`: `account`, `refund_lock`, `owner_lock_args`, `inviter_id`,
`inviter_lock`, `channel_lock`, `price`, `quote`, `invited_discount`, `created_at`,
`initial_records`, `initial_cross_chain`. -/
def PreAccountCellData : Schema := .table [AccountChars, Script, Bytes, Bytes, ScriptOpt, ScriptOpt,
    PriceConfig, Uint64, Uint32, Uint64, Records, ChainId]

/-- Table `OfferCellData`: `account`, `price`, `message`, `inviter_lock`, `channel_lock`. -/
def OfferCellData : Schema := .table [Bytes, Uint64, Bytes, Script, Script]

/-- Table `SubAccount`: `lock`, `id`, `account`, `suffix`, `registered_at`, `expired_at`, `status`,
`records`, `nonce`, `enable_sub_account`, `renew_sub_account_price`. -/
def SubAccount : Schema := .table [Script, AccountId, AccountChars, Bytes, Uint64, Uint64, Uint8,
    Records, Uint64, Uint8, Uint64]

/-- Table `ASTExpression`: `expression_type`, `expression`. -/
def ASTExpression : Schema := .table [.byte "expression_type", Bytes]

/-- Table `SubAccountRule`: `index`, `name`, `note`, `price`, `ast`, `status`. -/
def SubAccountRule : Schema := .table [Uint32, Bytes, Bytes, Uint64, ASTExpression, Uint8]

/-- Vector `SubAccountRules` of `SubAccountRule`. -/
def SubAccountRules : Schema := .dynVec SubAccountRule

/-- Vector `ASTExpressions` of `ASTExpression`. -/
def ASTExpressions : Schema := .dynVec ASTExpression

/-- Table `ASTOperator`: `symbol`, `expressions`. -/
def ASTOperator : Schema := .table [.byte "symbol", ASTExpressions]

/-- Table `ASTFunction`: `name`, `arguments`. -/
def ASTFunction : Schema := .table [.byte "name", ASTExpressions]

/-- Table `ASTVariable`: `name`. -/
def ASTVariable : Schema := .table [.byte "name"]

/-- Table `ASTValue`: `value_type`, `value`. -/
def ASTValue : Schema := .table [.byte "value_type", Bytes]

/-- `Byte10`: a 10-byte array. -/
def Byte10 : Schema := .fixed 10

/-- Struct `DeviceKey`: `main_alg_id`, `sub_alg_id`, `cid`, `pubkey`. -/
def DeviceKey : Schema := .struct [Uint8, Uint8, Byte10, Byte10]

/-- Fixed vector `DeviceKeyList` of `DeviceKey`. -/
def DeviceKeyList : Schema := .fixVec DeviceKey

/-- Table `DeviceKeyListCellData`: `keys`, `refund_lock`. -/
def DeviceKeyListCellData : Schema := .table [DeviceKeyList, Script]

/-- Vector `BytesVec` of `Bytes`. -/
def BytesVec : Schema := .dynVec Bytes

/-- Table `DataEntity`: `index`, `version`, `entity`. -/
def DataEntity : Schema := .table [Uint32, Uint32, Bytes]

/-- Option `DataEntityOpt` of `DataEntity`. -/
def DataEntityOpt : Schema := .option DataEntity

/-- Table `Data`: `dep`, `old`, `new`. -/
def Data : Schema := .table [DataEntityOpt, DataEntityOpt, DataEntityOpt]

/-- Every class `cell.js` exports, in source order. -/
def exportedSchemas : List Schema :=
  [ActionData, ConfigCellMain, TypeIdTable, DasLockOutPointTable, DasLockTypeIdTable,
    ConfigCellAccount, ConfigCellApply, Chars, ConfigCellPrice, DiscountConfig, PriceConfigList,
    PriceConfig, ConfigCellProposal, ConfigCellProfitRate, ConfigCellIncome, ConfigCellRelease,
    ConfigCellSecondaryMarket, ConfigCellReverseResolution, ConfigCellSubAccount,
    ConfigCellSystemStatus, ContractStatus, ProposalCellData, SliceList, SL, ProposalItem,
    IncomeCellData, IncomeRecords, IncomeRecord, AccountCellDataV2, AccountCellData, AccountId,
    Record, Records, AccountSaleCellDataV1, AccountSaleCellData, AccountAuctionCellData,
    PreAccountCellDataV1, PreAccountCellDataV2, PreAccountCellData, ChainId, AccountChars,
    AccountChar, OfferCellData, SubAccount, SubAccountRule, SubAccountRules, ASTExpression,
    ASTExpressions, ASTOperator, ASTFunction, ASTVariable, ASTValue, DeviceKey, DeviceKeyList,
    DeviceKeyListCellData, Uint8, Uint32, Uint64, Byte10, Bytes, BytesVec, Hash, Script,
    ScriptOpt, OutPoint, Data, DataEntity, DataEntityOpt]

end DasTypes
