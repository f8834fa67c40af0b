import Glass2Glass.Solver.Backtrack
import Glass2Glass.Solver.Complete
import Glass2Glass.Solver.Feasibility
import Glass2Glass.Solver.Linear
import Glass2Glass.Solver.Preferred
import Glass2Glass.Solver.Sound
import Glass2Glass.Wire.Records
import Glass2Glass.Caps.Speakers
import Glass2Glass.Gst.Batch
import Glass2Glass.Graph.Finish
import Glass2Glass.Spsc
import Glass2Glass.Mcu.Progress
import Glass2Glass.Mcu.Receive
import Glass2Glass.Runtime.Reconfigure
import Glass2Glass.Runtime.State
import Glass2Glass.Runtime.Refusal
import Glass2Glass.Runtime.Numbering
import Glass2Glass.Runtime.Splice
import Glass2Glass.Runtime.Naming
import Glass2Glass.Runtime.Distinct
import Glass2Glass.Rtp.Latency
import Glass2Glass.Fec.Exact
import Glass2Glass.Moqt.RoundTrip
import Glass2Glass.Moqt.Chunks
import Glass2Glass.Moqt.Waiting
import Glass2Glass.Moqt.Order
import Glass2Glass.Srt.Arq
import Glass2Glass.Srt.Losses
import Glass2Glass.Srt.Schedule
import Glass2Glass.Srtp.Delivery
import Glass2Glass.Srtp.Window
import Glass2Glass.Flv.RoundTrip
import Glass2Glass.Ogg.RoundTrip
import Glass2Glass.Ptp.Servo
import Glass2Glass.Ptp.Cycle
import Glass2Glass.Supervise.Budget
import Glass2Glass.Rist.History
import Glass2Glass.H264.Delivery
import Glass2Glass.H264.Convert
import Glass2Glass.H264.BitReader
import Glass2Glass.Ts.Stream
import Glass2Glass.Aggregator.Rounds
import Glass2Glass.Srt.Rendezvous
import Glass2Glass.Ts.Sections
import Glass2Glass.Ts.Unwrapping
import Glass2Glass.Ts.Recovered
import Glass2Glass.Mkv.Lacing
import Glass2Glass.Mkv.Reordering
import Glass2Glass.Klv.Walk
import Glass2Glass.Rist.Undone
import Glass2Glass.Poc.FrameNum
import Glass2Glass.Rtp.Reception
import Glass2Glass.Segment
import Glass2Glass.Ptp.Exchange
import Glass2Glass.Rist.Numbering
import Glass2Glass.Rist.Requests
import Glass2Glass.Solver.Shrink
import Glass2Glass.Rtp.Extensions
