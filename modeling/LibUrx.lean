import LibUrx.Base.Bytes
import LibUrx.Base.Framing
import LibUrx.Base.Histories
import LibUrx.Base.Memory
import LibUrx.Base.Overwrite
import LibUrx.Base.Provenance
import LibUrx.Base.Replace
import LibUrx.Base.Runs
import LibUrx.Base.Split
import LibUrx.Base.Text
import LibUrx.Base.Trim
import LibUrx.Base.Words
import LibUrx.Controller.Answers
import LibUrx.Controller.ClosedLoop
import LibUrx.Controller.Commands
import LibUrx.Controller.Motion
import LibUrx.Controller.Polls
import LibUrx.Controller.Program
import LibUrx.Controller.ProgramRun
import LibUrx.Controller.Registers
import LibUrx.Controller.WholeCommands
import LibUrx.Net.Sockets
import LibUrx.Robot.Armed
import LibUrx.Robot.BufferReads
import LibUrx.Robot.Definedness
import LibUrx.Robot.Delivery
import LibUrx.Robot.Initialise
import LibUrx.Robot.InputSide
import LibUrx.Robot.Members
import LibUrx.Robot.Packages
import LibUrx.Robot.PoseCommand
import LibUrx.Robot.QRef
import LibUrx.Robot.Receiver
import LibUrx.Robot.Retry
import LibUrx.Robot.Robot
import LibUrx.Robot.RobotRun
import LibUrx.Robot.Sequence
import LibUrx.Robot.Snapshot
import LibUrx.Robot.SpeedCommands
import LibUrx.Robot.StateCopy
import LibUrx.Robot.TimestampLog
import LibUrx.Robot.UnwrittenBuffer
import LibUrx.Rtde.Acceptance
import LibUrx.Rtde.Acknowledged
import LibUrx.Rtde.Addressing
import LibUrx.Rtde.BufferFront
import LibUrx.Rtde.Chunking
import LibUrx.Rtde.Connection
import LibUrx.Rtde.DataPackage
import LibUrx.Rtde.Directions
import LibUrx.Rtde.FieldList
import LibUrx.Rtde.Frames
import LibUrx.Rtde.Frequency
import LibUrx.Rtde.Handler
import LibUrx.Rtde.HandlerRun
import LibUrx.Rtde.HeardAnswer
import LibUrx.Rtde.Interference
import LibUrx.Rtde.Leftovers
import LibUrx.Rtde.Magic
import LibUrx.Rtde.NoOutput
import LibUrx.Rtde.PackageFit
import LibUrx.Rtde.Packet
import LibUrx.Rtde.Peer
import LibUrx.Rtde.Reach
import LibUrx.Rtde.Reception
import LibUrx.Rtde.Recipe
import LibUrx.Rtde.RecipeLayout
import LibUrx.Rtde.RegisterFailure
import LibUrx.Rtde.Requests
import LibUrx.Rtde.RoundTrip
import LibUrx.Rtde.ScanBounds
import LibUrx.Rtde.Session
import LibUrx.Rtde.Settled
import LibUrx.Rtde.SharedVariables
import LibUrx.Rtde.Spelling
import LibUrx.Rtde.StaleAnswer
import LibUrx.Rtde.StaleBytes
import LibUrx.Rtde.StalePackage
import LibUrx.Rtde.StartStop
import LibUrx.Rtde.Stream
import LibUrx.Rtde.TextMessage
import LibUrx.Rtde.Token
import LibUrx.Rtde.Trimming
import LibUrx.Rtde.TypeAnswer
import LibUrx.Rtde.TypeList
import LibUrx.Rtde.TypeScan
import LibUrx.Rtde.WireFrames
import LibUrx.Rtde.WireValue
import LibUrx.Rtde.Written
import LibUrx.Script.Formatting
import LibUrx.Script.Lifecycle
import LibUrx.Script.UrxScript
import LibUrx.Tools.Failsafe
import LibUrx.Tools.Roundtrip
import LibUrx.Tools.RoundtripRun
