import Vmon.Lib.Transition
import Vmon.Jsmn.Forest
import Vmon.Jsmn.Resume
import Vmon.RingBuffer.Concurrent
import Vmon.RingBuffer.Clear
import Vmon.Executor.Accounting
import Vmon.Executor.Slots
import Vmon.Executor.Timeouts
import Vmon.Executor.Shutdown
import Vmon.Executor.Replacement
import Vmon.Executor.Codes
import Vmon.Executor.Restart
import Vmon.Executor.Joining
import Vmon.Executor.Startup
import Vmon.Executor.Pool
import Vmon.Executor.Settling
import Vmon.VmInfo.Parse
import Vmon.VmInfo.Print
import Vmon.VmInfo.Readback
import Vmon.VmInfo.Shown
import Vmon.VmInfo.Memory
import Vmon.VmInfo.Events
import Vmon.VmInfo.Blocks
import Vmon.VmInfo.Scanner
import Vmon.VmInfo.Order
import Vmon.VmInfo.Tags
import Vmon.Sampler.Modes
import Vmon.Sampler.Acceptance
import Vmon.Sampler.RoundTrip
import Vmon.Sampler.FanOut
import Vmon.Sampler.Framing
import Vmon.Sampler.Contents
import Vmon.Sampler.Insertion
import Vmon.Sampler.Ids
import Vmon.Sampler.Bounds
import Vmon.MainLoop
import Vmon.MainLoop.Pool
import Vmon.MainLoop.Life
import Vmon.MainLoop.Answers
import Vmon.MainLoop.Polling
import Vmon.Scheduler
import Vmon.Scheduler.Standalone
import Vmon.Threading
import Vmon.Sampler.Writing
import Vmon.Sampler.Release
import Vmon.MainLoop.Settling
