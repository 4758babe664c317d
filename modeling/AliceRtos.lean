import AliceRtos.Task
import AliceRtos.Scheduler.Basic
import AliceRtos.Scheduler.Select
import AliceRtos.Scheduler.Tick
import AliceRtos.Scheduler.Run
import AliceRtos.Scheduler.Release
import AliceRtos.Scheduler.Permute
import AliceRtos.Scheduler.Switches
import AliceRtos.Scheduler.ZeroPeriod
import AliceRtos.Scheduler.Dispatches
import AliceRtos.Scheduler.Timing
import AliceRtos.Spsc.Ring
import AliceRtos.Spsc.Refinement
import AliceRtos.Spsc.Concurrent
import AliceRtos.Spsc.Linearization
import AliceRtos.Timer
import AliceRtos.Kernel
import AliceRtos.Kernel.Runs
