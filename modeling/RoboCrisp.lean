import RoboCrisp.Stream.LittleEndian
import RoboCrisp.Stream.Partial
import RoboCrisp.Stream.Cursor
import RoboCrisp.Stream.Sink
import RoboCrisp.Stream.Chunks
import RoboCrisp.Util.SArray.Lemmas
import RoboCrisp.Util.Memory
import RoboCrisp.Util.Ascending
import RoboCrisp.Comms.Buffer
import RoboCrisp.Comms.DataDeclaration
import RoboCrisp.Comms.NamedTyped
import RoboCrisp.Comms.ModuleInput
import RoboCrisp.Comms.Sensor
import RoboCrisp.Comms.Module
import RoboCrisp.Comms.Configuration
import RoboCrisp.Comms.Contents
import RoboCrisp.Comms.DataDeclaration.Lemmas
import RoboCrisp.Comms.NamedTyped.Lemmas
import RoboCrisp.Comms.Module.Lemmas
import RoboCrisp.Comms.Configuration.Lemmas
import RoboCrisp.Comms.Module.Numbering
import RoboCrisp.Comms.Configuration.Build
import RoboCrisp.Comms.Configuration.RoundTrip
import RoboCrisp.Comms.Configuration.Encodable
import RoboCrisp.Comms.Configuration.History
import RoboCrisp.Comms.DataValue
import RoboCrisp.Comms.ModuleControl
import RoboCrisp.Comms.ModuleControl.Lemmas
import RoboCrisp.Comms.ModuleControl.Consistency
import RoboCrisp.Comms.ModuleControl.Transcoding
import RoboCrisp.Comms.ModuleControl.RoundTrip
import RoboCrisp.Comms.ModuleControl.Reset
import RoboCrisp.Comms.Truncation
import RoboCrisp.Util.Checksum
import RoboCrisp.Comms.Handshake
import RoboCrisp.Comms.Message
import RoboCrisp.Comms.Message.Frame
import RoboCrisp.Comms.BasicNode
import RoboCrisp.Comms.BasicNode.Lemmas
import RoboCrisp.Comms.BasicNode.Framing
import RoboCrisp.Comms.BasicNode.Bounds
import RoboCrisp.Comms.BasicNode.Resync
import RoboCrisp.Comms.Truthful
import RoboCrisp.Comms.Message.Safety
import RoboCrisp.Comms.ModuleControl.Safety
import RoboCrisp.Comms.Layout
import RoboCrisp.Comms.Layout.Slots
import RoboCrisp.Comms.Layout.Canonical
import RoboCrisp.Comms.Equality
import RoboCrisp.Comms.ModuleControl.Arrays
import RoboCrisp.Comms.Message.RoundTrip
import RoboCrisp.Transition.Run
import RoboCrisp.Transition.Peers
import RoboCrisp.Util.SharedQueue
import RoboCrisp.Util.Scheduler
import RoboCrisp.Comms.Node
import RoboCrisp.Comms.Node.Lemmas
import RoboCrisp.Comms.Node.Order
import RoboCrisp.Comms.Node.Timeout
import RoboCrisp.Comms.Node.Sync
import RoboCrisp.Comms.Node.Tracking
import RoboCrisp.Comms.Message.Transmit
import RoboCrisp.Comms.Node.Agreement
import RoboCrisp.Util.SharedQueue.Waiting
import RoboCrisp.Comms.Node.Halting
import RoboCrisp.Comms.Node.Halting.Lemmas
import RoboCrisp.Comms.Node.Halting.Reentry
import RoboCrisp.Comms.Node.Halting.Failed
import RoboCrisp.Comms.Node.Halting.Asleep
import RoboCrisp.Comms.Node.Halting.Whole
import RoboCrisp.Comms.NodeServer
import RoboCrisp.Comms.NodeServer.Limit
import RoboCrisp.Comms.NodeServer.Disconnect
import RoboCrisp.Comms.NodeServer.Deletion
import RoboCrisp.Util.SteadyTimer
import RoboCrisp.Util.PeriodicScheduleSlot
import RoboCrisp.Util.PeriodicScheduleSlot.Armed
import RoboCrisp.Util.PeriodicScheduleSlot.Pending
import RoboCrisp.Util.TimedScheduler
import RoboCrisp.Util.TimedScheduler.Pending
import RoboCrisp.Util.TimedScheduler.Untimed
import RoboCrisp.Util.Snapshot
import RoboCrisp.Util.Signal
import RoboCrisp.Util.Signal.Emission
import RoboCrisp.Util.Signal.Disconnect
import RoboCrisp.Util.SharedQueue.Fifo
import RoboCrisp.Transition.Refinement
import RoboCrisp.Util.SArray.Objects
import RoboCrisp.Comms.Message.Forward
import RoboCrisp.Comms.Configuration.Counters
import RoboCrisp.Comms.Configuration.Objects
import RoboCrisp.Comms.Message.Length
import RoboCrisp.Comms.View
import RoboCrisp.Comms.View.Encoding
import RoboCrisp.Comms.TypedDeclaration
import RoboCrisp.Comms.TypedDeclaration.Conversion
import RoboCrisp.Comms.TypedDeclaration.RoundTrip
import RoboCrisp.Comms.TypedDeclaration.Equality
import RoboCrisp.Comms.ModuleControl.FiniteMap
import RoboCrisp.Remainder.Reflected
import RoboCrisp.Util.Checksum.Bitwise
import RoboCrisp.Comms.Message.Corruption
import RoboCrisp.Input.Axis
import RoboCrisp.Input.Axis.Linear
import RoboCrisp.Comms.Message.Transfer
import RoboCrisp.Comms.DataValue.RoundTrip
import RoboCrisp.Comms.ModuleControl.Live
import RoboCrisp.Comms.ModuleControl.Recursion
import RoboCrisp.Comms.ModuleControl.Written
import RoboCrisp.Comms.ModuleControl.Reading
import RoboCrisp.Comms.ModuleControl.Assignment
import RoboCrisp.Comms.ModuleControl.Delivery
import RoboCrisp.Comms.Configuration.Copyable
import RoboCrisp.Comms.Configuration.Copying
import RoboCrisp.Expansion.Horner
import RoboCrisp.Input.Axis.Polynomial
import RoboCrisp.Input.Axis.Emulation
import RoboCrisp.Input.Axis.Emulation.Absolute
import RoboCrisp.Input.Axis.Emulation.Relative
import RoboCrisp.Comms.NamedTyped.Lifetime
import RoboCrisp.Comms.NamedTyped.AllOrNothing
import RoboCrisp.Comms.Configuration.SensorIds
import RoboCrisp.Text.Words
import RoboCrisp.Tools.WrapText
import RoboCrisp.Ownership.Exclusive
import RoboCrisp.Ownership.Buffer
import RoboCrisp.Ownership.Buffer.Invariant
import RoboCrisp.Scan.InPlace
import RoboCrisp.Tools.OptionParser
import RoboCrisp.Tools.OptionParser.Agreement
import RoboCrisp.Stream.Spending
import RoboCrisp.Comms.APIElement
import RoboCrisp.Comms.DataStructure
import RoboCrisp.Comms.APIElement.Lemmas
import RoboCrisp.Comms.APIElement.Construction
import RoboCrisp.Comms.DataStructure.Lemmas
import RoboCrisp.Comms.DataStructure.RoundTrip
import RoboCrisp.Comms.Node.Link
import RoboCrisp.Scan.Rescan
import RoboCrisp.Tools.OptionParser.Words
import RoboCrisp.Tools.Bootstrap
import RoboCrisp.Tools.Bootstrap.Forwarding
import RoboCrisp.Tools.Bootstrap.Bluetooth
import RoboCrisp.Comms.Message.Stream
import RoboCrisp.Transition.Demux
import RoboCrisp.Input.EvDevController
import RoboCrisp.Input.EvDevController.Sources
import RoboCrisp.Input.EvDevController.Separation
import RoboCrisp.Input.EvDevController.Halfway
import RoboCrisp.Transition.Progress
import RoboCrisp.Util.WorkerObject
import RoboCrisp.Util.WorkerObject.Lemmas
import RoboCrisp.Util.WorkerObject.Threads
import RoboCrisp.Util.WorkerObject.Returns
import RoboCrisp.Util.TimedActions
import RoboCrisp.Util.TimedActions.Lifetime
import RoboCrisp.Util.TimedActions.Calls
import RoboCrisp.Util.TimedActions.Drained
import RoboCrisp.Util.TimedActions.Untimed
