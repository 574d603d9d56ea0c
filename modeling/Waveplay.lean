import Waveplay.Lib.Runs
import Waveplay.Lib.Bits
import Waveplay.Lib.Cbc
import Waveplay.Lib.Ring
import Waveplay.Lib.Wrap
import Waveplay.Lib.Trim
import Waveplay.AudioFlinger.ThreadLoopWrite
import Waveplay.AudioFlinger.CaptureSockets
import Waveplay.RaopHelper.Streaming
import Waveplay.RaopHelper.Diversion
import Waveplay.RaopHelper.LastRequest
import Waveplay.RaopPlay.BitsWrite
import Waveplay.RaopPlay.AudioStream
import Waveplay.RaopPlay.PcmStream
import Waveplay.RaopPlay.EventTable
import Waveplay.RaopPlay.RaopClient
import Waveplay.RaopPlay.TcpFraming
import Waveplay.RaopPlay.MainLoop
import Waveplay.RaopPlay.WholeBlocks
import Waveplay.RaopPlay.AexclLib
import Waveplay.RaopPlay.ExtraHeaders
import Waveplay.RaopPlay.RtspClient
import Waveplay.RaopPlay.HeaderTable
import Waveplay.RaopPlay.RtspSession
import Waveplay.Airtunes.AudioPacket
import Waveplay.Airtunes.Speaker
import Waveplay.Airtunes.Manager
import Waveplay.Airtunes.SenderAlive
import Waveplay.Airtunes.Buffers
import Waveplay.Airtunes.Marker
import Waveplay.Airtunes.Sequence
import Waveplay.Player.Line
import Waveplay.Player.Delivery
import Waveplay.Player.MaxByteDelay
import Waveplay.Discovery.Matcher
import Waveplay.Discovery.Services
import Waveplay.Discovery.Survival
import Waveplay.Discovery.Convergence
import Waveplay.Player.Assignment
import Waveplay.Discovery.Tokens
import Waveplay.Discovery.FilterLanguage
import Waveplay.Discovery.Malformed
import Waveplay.Properties.Line
import Waveplay.Properties.RoundTrip
import Waveplay.RaopPlay.UdpSessions
import Waveplay.RaopPlay.WriteInterest
import Waveplay.RaopPlay.EndOfSource
import Waveplay.RaopPlay.FoldedHeaders
import Waveplay.Lib.BoundedMap
import Waveplay.RaopPlay.EventMap
import Waveplay.RaopPlay.Pacing
import Waveplay.RaopPlay.SongTime
import Waveplay.Airtunes.Repacketise
import Waveplay.RaopPlay.FailedSend
import Waveplay.Lib.Overwrite
import Waveplay.Lib.Tagged
import Waveplay.RaopPlay.Dmap
import Waveplay.Lib.Sextets
import Waveplay.RaopPlay.Base64
import Waveplay.Airtunes.Base64
import Waveplay.Lib.LinkedMap
import Waveplay.Properties.Store
import Waveplay.Lib.HeaderLines
import Waveplay.RaopPlay.Requests
import Waveplay.RaopPlay.RtspSetup
import Waveplay.RaopPlay.RequestBuffers
import Waveplay.Lib.Accesses
import Waveplay.RaopPlay.LineReader
import Waveplay.RaopPlay.Trim
import Waveplay.Airtunes.NtpTime
import Waveplay.Airtunes.TimingThread
import Waveplay.Jmdns.Stream
import Waveplay.Lib.BinaryField
import Waveplay.Lib.RoundCipher
import Waveplay.Lib.Search
import Waveplay.RaopPlay.Aes
import Waveplay.RaopPlay.AesCipher
import Waveplay.RaopPlay.AesKeys
import Waveplay.RaopPlay.EncryptedStream
import Waveplay.Jmdns.Message
import Waveplay.Jmdns.MessageRoundTrip
import Waveplay.Jmdns.MessageSize
import Waveplay.Jmdns.Outbox
import Waveplay.Jmdns.Cache
import Waveplay.Jmdns.CacheRuns
import Waveplay.Jmdns.HostName
import Waveplay.Jmdns.Eviction
import Waveplay.Jmdns.HostNetwork
import Waveplay.Jmdns.TextRecord
