import ContainerIO.Basic
import ContainerIO.InputSlots
import ContainerIO.SlotRuns
import ContainerIO.IOContext
import ContainerIO.Outputs
import ContainerIO.BatchArgs
import ContainerIO.Fetch
import ContainerIO.FetchInvariant
import ContainerIO.Concurrency
import ContainerIO.Yielded
import ContainerIO.Heartbeat
import ContainerIO.HeartbeatLoop
import ContainerIO.GeneratorOutput
import ContainerIO.Cancellation
import ContainerIO.CancelCallbacks
import ContainerIO.VolumeCli
import ContainerIO.VolumeListing
import ContainerIO.ContainerProcess
import ContainerIO.Container
import ContainerIO.Completion
