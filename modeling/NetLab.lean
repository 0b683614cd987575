import NetLab.Lib.Machine
import NetLab.Lib.Simulation
import NetLab.Lib.Bytes
import NetLab.Lib.Network
import NetLab.Lib.Hosts
import NetLab.Lib.Clients
import NetLab.Lib.Agenda
import NetLab.Lib.Table
import NetLab.Lib.Decimal
import NetLab.Lib.Significant
import NetLab.Lib.Delimited
import NetLab.Lib.Dotted
import NetLab.Lib.Jain
import NetLab.Lib.Scheduler
import NetLab.Tcp.Ashish
import NetLab.Tcp.HyStart
import NetLab.Tcp.Refinement
import NetLab.Tcp.Freeze
import NetLab.Tcp.Growth
import NetLab.Tcp.Dominance
import NetLab.Ping.Packet
import NetLab.Ping.Statistics
import NetLab.Ping.System
import NetLab.Ping.Sound
import NetLab.Ping.InStep
import NetLab.Ping.Headers
import NetLab.Ping.Termination
import NetLab.Ping.Output
import NetLab.Ping.Shared
import NetLab.Throughput.Report
import NetLab.Throughput.Seconds
import NetLab.Throughput.System
import NetLab.Throughput.Sound
import NetLab.Throughput.Headers
import NetLab.Throughput.Shutdown
import NetLab.Throughput.Csv
import NetLab.Throughput.Shared
import NetLab.Trace.Parser
import NetLab.Trace.Accept
import NetLab.Trace.System
import NetLab.Trace.Attribution
import NetLab.Trace.Timed
import NetLab.Trace.Wait
import NetLab.Trace.Output
import NetLab.Trace.Text
import NetLab.Trace.Shared
import NetLab.Dns.Records
import NetLab.Dns.Server
import NetLab.Dns.Isolation
import NetLab.Dns.Segmentation
import NetLab.Dns.Lines
import NetLab.Dns.Client
import NetLab.Video.Session
import NetLab.Video.Deadlock
import NetLab.Video.FlowControl
import NetLab.Video.Delivery
import NetLab.Video.Progress
import NetLab.Flow.Monitor
import NetLab.Flow.Goodput
import NetLab.Flow.Fairness
import NetLab.Flow.Scenario
import NetLab.Flow.Delivery
import NetLab.App.MyApp
import NetLab.App.Sending
import NetLab.App.Timed
import NetLab.App.CwndTrace
