import ZeroMasque.Client.Reconnect
import ZeroMasque.Client.Responses
import ZeroMasque.Client.Streams
import ZeroMasque.Ech.Directory
import ZeroMasque.Ech.Offering
import ZeroMasque.Gates
import ZeroMasque.Io.FlushAll
import ZeroMasque.Io.FlushPoints
import ZeroMasque.Server.Farewell
import ZeroMasque.Server.Pinning
import ZeroMasque.Server.Release
import ZeroMasque.Server.StaleReplies
import ZeroMasque.Tunnel.Causality
import ZeroMasque.Tunnel.Isolation
import ZeroMasque.Tunnel.Progress
import ZeroMasque.Tunnel.Targets
