import RingNet.Batch
import RingNet.BufferQueue
import RingNet.Conservation
import RingNet.Attribution
import RingNet.Buffers
import RingNet.Delivery
import RingNet.Handles
import RingNet.Lifetime
import RingNet.Descriptors
import RingNet.Order
import RingNet.Proactor
import RingNet.Logging
import RingNet.RunLoop
import RingNet.ReadStream
import RingNet.Writes
import RingNet.Guard
import RingNet.Retry
import RingNet.Listening
import RingNet.Leaks
import RingNet.Endpoints
import RingNet.Registration
import RingNet.Timeouts
import RingNet.Addresses
import RingNet.Errno
import RingNet.Locks
import RingNet.Streams
import RingNet.Progress
import RingNet.Threads
import RingNet.RoundTrip
