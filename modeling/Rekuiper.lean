import Rekuiper.Bus.Retry
import Rekuiper.Bus.Contiguity
import Rekuiper.Bus.Undelivered
import Rekuiper.SinkCache.Delivery
import Rekuiper.Sources.Refcount
import Rekuiper.Rules.Catalogue
import Rekuiper.Manifest.Loading
import Rekuiper.Manifest.Names
import Rekuiper.Sql.Refinement
import Rekuiper.Pipeline.Mask
import Rekuiper.Pipeline.WindowRows
import Rekuiper.Server.History
import Rekuiper.Server.Convergence
import Rekuiper.Server.Execution
import Rekuiper.Server.HashInput
import Rekuiper.Server.Auth
import Rekuiper.Server.Ruletest
import Rekuiper.Rules.Checkpoints
import Rekuiper.Windows.Tumbling
import Rekuiper.Windows.Hopping
import Rekuiper.Windows.Sliding
import Rekuiper.Windows.Count
import Rekuiper.Windows.SessionFilter
import Rekuiper.Sql.Union
import Rekuiper.Pipeline.Asof
import Rekuiper.Sql.SlidingRefinement
import Rekuiper.SinkCache.Handover
import Rekuiper.SinkCache.Occupancy
import Rekuiper.Sinks.Custody
import Rekuiper.Sinks.Redelivery
import Rekuiper.Sinks.Arrival
import Rekuiper.Sinks.CacheDirs
import Rekuiper.Sinks.Formatting
import Rekuiper.Sinks.Counting
import Rekuiper.Sinks.FileWriter
import Rekuiper.Codecs.Packed
import Rekuiper.Connectors.ModbusRoundTrip
import Rekuiper.Connectors.ModbusPoll
import Rekuiper.Connectors.SqlPolling
import Rekuiper.Connectors.SqlBatch
import Rekuiper.Connectors.ParquetRoundTrip
import Rekuiper.Connectors.TemplateEval
import Rekuiper.Connectors.TemplateFunctions
import Rekuiper.Connectors.TemplateGrammar
import Rekuiper.Connectors.TemplateLiterals
import Rekuiper.Connectors.TemplateParser
import Rekuiper.Connectors.TemplateScanner
import Rekuiper.Connectors.IotdbCells
import Rekuiper.Connectors.Influx
import Rekuiper.Connectors.InfluxReading
import Rekuiper.Connectors.Tdengine
import Rekuiper.Connectors.TdengineReading
import Rekuiper.Codecs.EdgeX
import Rekuiper.Connectors.DelimitedRoundTrip
import Rekuiper.Sql.Independence
import Rekuiper.Parser.Negation
import Rekuiper.Rules.Cycles
import Rekuiper.Pipeline.SchemaCheck
import Rekuiper.Pipeline.IntegerColumns
import Rekuiper.Server.DeadLetters
import Rekuiper.Server.RuletestStop
import Rekuiper.Server.Spki
import Rekuiper.Windows.Termination
import Rekuiper.Sql.Projections
import Rekuiper.Sql.Panics
import Rekuiper.Sql.IntegerOrder
import Rekuiper.Sql.OrderBy
import Rekuiper.Sql.GroupKeys
import Rekuiper.Sql.Like
import Rekuiper.Sql.Lag
import Rekuiper.Sql.Sequences
import Rekuiper.Sql.Bounded
import Rekuiper.Sql.Frozen
import Rekuiper.Sql.Qualified
import Rekuiper.Sql.SlidingRuns
import Rekuiper.Sql.RunningAggregates
import Rekuiper.Sql.ArrayFunctions
import Rekuiper.Sql.Radix
import Rekuiper.Sql.FunctionPanics
import Rekuiper.Sinks.DelimitedTable
import Rekuiper.Codecs.Safety
import Rekuiper.Codecs.ProtoSafety
import Rekuiper.Codecs.DelimitedCodec
import Rekuiper.Server.LookupTables
import Rekuiper.Connectors.ModbusRtu
