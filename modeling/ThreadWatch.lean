import ThreadWatch.Attach.Rehearsal
import ThreadWatch.Bytes.Hex
import ThreadWatch.ClassFile.Draft
import ThreadWatch.Main
import ThreadWatch.Proofs.Bytes.Spelling
import ThreadWatch.Proofs.Vm.Nesting
import ThreadWatch.Vm.Stage
import ThreadWatch.Proofs.Code.Listing
import ThreadWatch.Proofs.Code.Layout
import ThreadWatch.Proofs.Code.Relocation
import ThreadWatch.Proofs.Text.ModifiedUtf8
import ThreadWatch.Proofs.Pool.Interning
import ThreadWatch.Proofs.Code.Slots
import ThreadWatch.Proofs.Code.Assembly
import ThreadWatch.Proofs.Editing.Prelude
import ThreadWatch.Proofs.Pool.Format
import ThreadWatch.Proofs.ClassFile.Format
import ThreadWatch.Proofs.Editing.Rewriting
import ThreadWatch.Proofs.Code.Frame
import ThreadWatch.Proofs.Code.DebugTable
import ThreadWatch.Proofs.Editing.Refusal
import ThreadWatch.Proofs.Editing.Sites
import ThreadWatch.Proofs.Editing.Tables
import ThreadWatch.Proofs.Instrument.Transform
import ThreadWatch.Proofs.Pool.Enlarging
import ThreadWatch.Proofs.Vm.Discipline
import ThreadWatch.Proofs.Vm.Turns
import ThreadWatch.Proofs.Instrument.Again
import ThreadWatch.Proofs.Attach.Course
import ThreadWatch.Proofs.Editing.Leftovers
import ThreadWatch.Proofs.Command.Prediction
import ThreadWatch.Proofs.Command.InPlace
import ThreadWatch.Proofs.Code.Reach
import ThreadWatch.Proofs.Code.Reencoding
import ThreadWatch.Proofs.Editing.Locals
import ThreadWatch.Proofs.Editing.Limits
import ThreadWatch.Proofs.Code.FrameLimits
import ThreadWatch.Proofs.Types.Declarations
import ThreadWatch.Proofs.Types.Querying
import ThreadWatch.Proofs.Editing.CallSites
import ThreadWatch.Proofs.Instrument.Flags
import ThreadWatch.Proofs.Instrument.Targets
import ThreadWatch.Proofs.Text.Groups
import ThreadWatch.Proofs.Descriptor
import ThreadWatch.Proofs.ClassFile.Draft
import ThreadWatch.Proofs.Code.Attempts
import ThreadWatch.Proofs.Exclusions
import ThreadWatch.Proofs.Bytes.Cursor
import ThreadWatch.Proofs.Types.Directories
import ThreadWatch.Proofs.Editing.Order
