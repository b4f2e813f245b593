import Multimethod.Decimal.Digits
import Multimethod.Decimal.Notation
import Multimethod.Decimal.Rounding
import Multimethod.Dispatch.Callable
import Multimethod.Dispatch.Candidate
import Multimethod.Dispatch.Lookup
import Multimethod.Dispatch.Overload
import Multimethod.Dispatch.Table
import Multimethod.Engine.Basic
import Multimethod.Engine.Cache
import Multimethod.Engine.Discovery
import Multimethod.Engine.Event
import Multimethod.Engine.Resolution
import Multimethod.Eval.Bindings
import Multimethod.Eval.Interpreter
import Multimethod.Eval.Machine
import Multimethod.Eval.Objects
import Multimethod.Eval.Setup
import Multimethod.Lattice.Hierarchy
import Multimethod.Lattice.Order
import Multimethod.Lattice.Ty
import Multimethod.Library.Arguments
import Multimethod.Library.Arithmetic
import Multimethod.Library.Data
import Multimethod.Library.Interaction
import Multimethod.Library.Root
import Multimethod.Main
import Multimethod.Name.Form
import Multimethod.Name.Mangle
import Multimethod.Name.Order
import Multimethod.Reader.Error
import Multimethod.Reader.Machine
import Multimethod.Reader.Source
import Multimethod.Reader.Token
import Multimethod.Registry.Action
import Multimethod.Registry.Basic
import Multimethod.Registry.Member
import Multimethod.Registry.Stock
import Multimethod.Session.Basic
import Multimethod.Session.CommandLine
import Multimethod.Session.Error
import Multimethod.Session.Files
import Multimethod.Session.Logging
import Multimethod.Session.Program
import Multimethod.Session.Repl
import Multimethod.Session.Settings
import Multimethod.Session.Toml
import Multimethod.Text.Alphanumeric
import Multimethod.Text.Blank
import Multimethod.Text.Hex
import Multimethod.Value.Basic
import Multimethod.Value.Error
import Multimethod.Value.Printer
import Multimethod.Proofs.Dispatch.GuardChain
import Multimethod.Proofs.Eval.OverloadCall
import Multimethod.Proofs.Dispatch.ArityRule
import Multimethod.Proofs.Eval.CacheTransparency
import Multimethod.Proofs.Eval.TuningLimits
import Multimethod.Proofs.Eval.MoreSpecific
import Multimethod.Proofs.Engine.Commute
import Multimethod.Proofs.Eval.AmbiguousImports
import Multimethod.Proofs.Reader.RoundTrip
import Multimethod.Proofs.Session.Incompleteness
import Multimethod.Proofs.Eval.Permanence
import Multimethod.Proofs.Eval.WellFormedEntries
import Multimethod.Proofs.Eval.ArityPin
import Multimethod.Proofs.Eval.EqualProcedures
import Multimethod.Proofs.Eval.SelectorCall
import Multimethod.Proofs.Session.Chunks
import Multimethod.Proofs.Dispatch.JoinedTypes
import Multimethod.Proofs.Dispatch.TotalOrder
import Multimethod.Proofs.Eval.CallingConvention
import Multimethod.Proofs.Eval.SharedInheritance
import Multimethod.Proofs.Eval.MalformedMembers
import Multimethod.Proofs.Eval.CatchAllImport
import Multimethod.Proofs.Eval.MonotoneImports
import Multimethod.Proofs.Reader.Progress
import Multimethod.Proofs.Eval.JoinedSources
import Multimethod.Proofs.Eval.ReceiverFits
import Multimethod.Proofs.Eval.Rejections
import Multimethod.Proofs.Reader.Reread
import Multimethod.Proofs.Reader.DatumComment
import Multimethod.Proofs.Name.Canonical
import Multimethod.Proofs.Engine.Signed
import Multimethod.Proofs.Session.Words
import Multimethod.Proofs.Eval.BindingHistory
import Multimethod.Proofs.Eval.Arithmetic
