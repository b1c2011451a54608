import Nuhal.Lib.Run
import Nuhal.Lib.OnTime
import Nuhal.Lib.Memory
import Nuhal.Lib.Machine
import Nuhal.Lib.Residue
import Nuhal.Lib.Codec
import Nuhal.Lib.Steps
import Nuhal.Lib.Linearizable
import Nuhal.Lib.Foretold
import Nuhal.Lib.Ring
import Nuhal.Lib.Simulation
import Nuhal.Lib.Sums
import Nuhal.Lib.Linked
import Nuhal.Lib.Each
import Nuhal.Lib.Clamp
import Nuhal.Lib.Remainder
import Nuhal.All.Error
import Nuhal.All.ErrorCalls
import Nuhal.All.Bytestream
import Nuhal.All.Pid
import Nuhal.All.Encoder
import Nuhal.All.Radians
import Nuhal.All.Led
import Nuhal.All.Time
import Nuhal.All.Platform
import Nuhal.All.Uart
import Nuhal.All.Driver
import Nuhal.All.Protocol
import Nuhal.All.Programs
import Nuhal.All.Broadcast
import Nuhal.All.Strings
import Nuhal.All.Queue
import Nuhal.All.QueueCalls
import Nuhal.All.Matrix
import Nuhal.All.Utilities
import Nuhal.Linux.Time
import Nuhal.Linux.Led
import Nuhal.Linux.Kernel
import Nuhal.Linux.Uart
import Nuhal.Linux.Transfer
import Nuhal.Linux.Driver
import Nuhal.Tiva.Uart
import Nuhal.Tiva.Driver
import Nuhal.Tiva.Time
import Nuhal.Tiva.Pin
import Nuhal.Tiva.Led
import Nuhal.Clock.Elapsed
import Nuhal.Clock.Delay
import Nuhal.Clock.SysTick
import Nuhal.Clock.TivaDelay
import Nuhal.Clock.Watching
import Nuhal.Angle.Ticks
import Nuhal.Angle.Zero
import Nuhal.Angle.Normalise
import Nuhal.Angle.Radians
import Nuhal.Serial.Cursor
import Nuhal.Serial.Values
import Nuhal.Serial.Tape
import Nuhal.Serial.Reread
import Nuhal.Serial.Strings
import Nuhal.Serial.Length
import Nuhal.Serial.Scan
import Nuhal.Serial.StringTrip
import Nuhal.Serial.Arrays
import Nuhal.Link.Reads
import Nuhal.Link.Writes
import Nuhal.Link.Frame
import Nuhal.Link.Reader
import Nuhal.Link.Schedule
import Nuhal.Link.Bounds
import Nuhal.Link.Fresh
import Nuhal.Link.Delivery
import Nuhal.Link.RoundTrip
import Nuhal.Link.Arrived
import Nuhal.Link.Course
import Nuhal.Link.Requests
import Nuhal.Link.Refusals
import Nuhal.Link.Acceptance
import Nuhal.Link.Corruption
import Nuhal.Link.Verified
import Nuhal.Link.Unhurried
import Nuhal.Link.Patience
import Nuhal.Link.Looks
import Nuhal.Link.Passes
import Nuhal.Link.Lines
import Nuhal.Link.Scanf
import Nuhal.Link.BackPressure
import Nuhal.Link.Printf
import Nuhal.Broadcast.Rounds
import Nuhal.Broadcast.Room
import Nuhal.Broadcast.Sending
import Nuhal.Broadcast.Reassembly
import Nuhal.Broadcast.Transmission
import Nuhal.Fifo.Indices
import Nuhal.Fifo.Invariant
import Nuhal.Fifo.Safety
import Nuhal.Fifo.Refinement
import Nuhal.Fifo.Linearizable
import Nuhal.Fifo.Progress
import Nuhal.Faults.Nesting
import Nuhal.Fifo.Delivery
import Nuhal.Ports.PortList
import Nuhal.Ports.Ledger
import Nuhal.Ports.Closing
import Nuhal.Ports.Cleanup
import Nuhal.Ports.Opening
import Nuhal.Ports.Lifecycle
import Nuhal.Ports.Passthrough
import Nuhal.Control.Calls
import Nuhal.Control.ClosedForm
import Nuhal.Control.Windup
import Nuhal.Control.Recovery
import Nuhal.Control.Monotone
import Nuhal.Linear.Products
import Nuhal.Linear.Laws
import Nuhal.Linear.Cross
import Nuhal.Pins.Bitmap
import Nuhal.Pins.Assignment
import Nuhal.Pins.Driving
import Nuhal.Pins.Leds
import Nuhal.Drivers.Related
import Nuhal.Drivers.World
import Nuhal.Drivers.Foresight
import Nuhal.Drivers.Tiva
import Nuhal.Drivers.Host
import Nuhal.Drivers.Programs
import Nuhal.Drivers.Dialogue
import Nuhal.Drivers.Within
import Nuhal.Drivers.Deadlines
import Nuhal.Drivers.TivaDeadlines
import Nuhal.Drivers.HostDeadlines
import Nuhal.Drivers.RequestDeadline
import Nuhal.Drivers.Exchange
