import DasTypes.Buffer
import DasTypes.OffsetTable
import DasTypes.Schema
import DasTypes.Cell
import DasTypes.Views
import DasTypes.Validation
import DasTypes.CountedValidate
import DasTypes.RoundTrip
import DasTypes.Canonical
import DasTypes.Arity
import DasTypes.Navigation
