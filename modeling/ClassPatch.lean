import ClassPatch.AccessFlags
import ClassPatch.Annotation.Basic
import ClassPatch.Annotation.Format
import ClassPatch.Binary.Float
import ClassPatch.Binary.Reader
import ClassPatch.Binary.Writer
import ClassPatch.Bytecode.Decode
import ClassPatch.Bytecode.Encode
import ClassPatch.Bytecode.Frame
import ClassPatch.Bytecode.Instruction
import ClassPatch.Bytecode.Layout
import ClassPatch.Bytecode.Mnemonic
import ClassPatch.Bytecode.PlainOp
import ClassPatch.Class.Annotation
import ClassPatch.Class.Basic
import ClassPatch.Class.Code
import ClassPatch.Class.Constant
import ClassPatch.Class.StackDepth
import ClassPatch.Cli.Build
import ClassPatch.Cli.FileTree
import ClassPatch.Cli.Host
import ClassPatch.Cli.Options
import ClassPatch.Descriptor.Basic
import ClassPatch.Descriptor.Parser
import ClassPatch.Error.Basic
import ClassPatch.Error.Description
import ClassPatch.Inject.ClassPath
import ClassPatch.Inject.Config
import ClassPatch.Inject.Context
import ClassPatch.Inject.ExpectPlatform
import ClassPatch.Inject.Injector
import ClassPatch.Inject.Marker
import ClassPatch.Inject.PlatformMethods
import ClassPatch.Inject.Properties
import ClassPatch.Lift.Annotation
import ClassPatch.Lift.Class
import ClassPatch.Lift.Code
import ClassPatch.Lift.Resolver
import ClassPatch.Lower.Annotation
import ClassPatch.Lower.Class
import ClassPatch.Lower.Code
import ClassPatch.Lower.Constant
import ClassPatch.Main
import ClassPatch.Name
import ClassPatch.Path
import ClassPatch.Pool.Builder
import ClassPatch.Pool.Constant
import ClassPatch.Pool.Format
import ClassPatch.Pool.Lookup
import ClassPatch.Rename.Annotation
import ClassPatch.Rename.Basic
import ClassPatch.Rename.Class
import ClassPatch.Rename.Code
import ClassPatch.Rename.Constant
import ClassPatch.Signature.Basic
import ClassPatch.Signature.Parser
import ClassPatch.SlotTable
import ClassPatch.Stored.Attribute
import ClassPatch.Stored.ClassFile
import ClassPatch.Text.ModifiedUtf8
import ClassPatch.Text.Quoted
import ClassPatch.Text.Trim
import ClassPatch.Text.Unprintable
import ClassPatch.Version
import ClassPatch.Proofs.Inject.Untouched
import ClassPatch.Proofs.Annotation.Format
import ClassPatch.Proofs.Binary.Ensures
import ClassPatch.Proofs.Bytecode.Branch
import ClassPatch.Proofs.Bytecode.Decode
import ClassPatch.Proofs.Bytecode.Frame
import ClassPatch.Proofs.Bytecode.Layout
import ClassPatch.Proofs.Class.Fixpoint
import ClassPatch.Proofs.Inject.Indices
import ClassPatch.Proofs.Bytecode.Assemble
import ClassPatch.Proofs.Pool.Run
import ClassPatch.Proofs.Rename.Mentions
import ClassPatch.Proofs.Stored.RoundTrip
import ClassPatch.Proofs.Inject.Again
import ClassPatch.Proofs.Code.RoundTrip
import ClassPatch.Proofs.Bytecode.FrameSize
import ClassPatch.Proofs.Pool.Operation
import ClassPatch.Proofs.Inject.Stub
import ClassPatch.Proofs.Rename.Unmentioned
import ClassPatch.Proofs.Bytecode.Canonical
import ClassPatch.Proofs.Bytecode.Partition
import ClassPatch.Proofs.Bytecode.Form
import ClassPatch.Proofs.Lift.Laid
import ClassPatch.Proofs.Lift.Unfolding
import ClassPatch.Proofs.Lift.Lengthened
import ClassPatch.Proofs.Class.Overflow
import ClassPatch.Proofs.Lift.MethodCode
import ClassPatch.Proofs.Class.Jumps
import ClassPatch.Proofs.Lift.Tight
import ClassPatch.Proofs.Class.Offsets
import ClassPatch.Proofs.Inject.Offsets
import ClassPatch.Proofs.Lower.Known
import ClassPatch.Proofs.Lower.Quiet
import ClassPatch.Proofs.Lift.Quiet
import ClassPatch.Proofs.Bytecode.FrameTypes
import ClassPatch.Proofs.Lift.Exact
import ClassPatch.Proofs.Lower.Distinct
import ClassPatch.Proofs.Lift.QuietCode
import ClassPatch.Proofs.Lift.QuietClass
import ClassPatch.Proofs.Class.Canonical
import ClassPatch.Proofs.Stored.Payload
import ClassPatch.Proofs.Signature.Outermost
import ClassPatch.Proofs.Bytecode.Widening
import ClassPatch.Proofs.Code.Shortage
import ClassPatch.Proofs.Code.Closed
import ClassPatch.Proofs.Text.CharacterBytes
import ClassPatch.Proofs.Pool.Appending
import ClassPatch.Proofs.Pool.Annotation
import ClassPatch.Proofs.Signature.Renamed
import ClassPatch.Proofs.Descriptor.Inverse
import ClassPatch.Proofs.Stored.PrefixFree
import ClassPatch.Proofs.Inject.Bodies
import ClassPatch.Proofs.Inject.Placeholder
import ClassPatch.Proofs.Name.Segments
import ClassPatch.Proofs.Pool.SlotLookup
import ClassPatch.Proofs.Inject.PlatformClass
import ClassPatch.Proofs.Path.Components
import ClassPatch.Proofs.Inject.ClassPath
