import DedupPipeline.Client.Client
import DedupPipeline.Client.Packets
import DedupPipeline.Client.Transfer
import DedupPipeline.Client.Udp
import DedupPipeline.Decoder.BitReader
import DedupPipeline.Decoder.Collisions
import DedupPipeline.Decoder.Decoder
import DedupPipeline.Decoder.Decompress
import DedupPipeline.Decoder.EndToEnd
import DedupPipeline.Decoder.Expansion
import DedupPipeline.Decoder.Lossless
import DedupPipeline.Decoder.Records
import DedupPipeline.Decoder.RoundTrip
import DedupPipeline.Decoder.Truncation
import DedupPipeline.Decoder.Untrusted
import DedupPipeline.Hls.Host
import DedupPipeline.Hls.OutOfOrder
import DedupPipeline.Library.BackReference
import DedupPipeline.Library.BitString
import DedupPipeline.Library.BlockStream
import DedupPipeline.Library.BoundedBuffer
import DedupPipeline.Library.Channel
import DedupPipeline.Library.Clocked
import DedupPipeline.Library.CommandQueue
import DedupPipeline.Library.Expansion
import DedupPipeline.Library.Fips180
import DedupPipeline.Library.FirstSeen
import DedupPipeline.Library.LetterRuns
import DedupPipeline.Library.Loop
import DedupPipeline.Library.Memory
import DedupPipeline.Library.Network
import DedupPipeline.Library.OverflowTable
import DedupPipeline.Library.ShiftAdd
import DedupPipeline.Library.Splitter
import DedupPipeline.Library.StringTable
import DedupPipeline.Rtl.Buffer
import DedupPipeline.Rtl.Control
import DedupPipeline.Rtl.ControlBus
import DedupPipeline.Rtl.Driver
import DedupPipeline.Rtl.Fifo
import DedupPipeline.Rtl.Handshake
import DedupPipeline.Rtl.Interrupts
import DedupPipeline.Rtl.KernelRuns
import DedupPipeline.Rtl.RegSlice
import DedupPipeline.Rtl.RequestPath
import DedupPipeline.Server.Accounting
import DedupPipeline.Server.Cdc
import DedupPipeline.Server.CdcOld
import DedupPipeline.Server.Deduplication
import DedupPipeline.Server.DeduplicationOld
import DedupPipeline.Server.Encoder
import DedupPipeline.Server.EncoderRecords
import DedupPipeline.Server.GearHash
import DedupPipeline.Server.HashedDictionary
import DedupPipeline.Server.Lzw
import DedupPipeline.Server.LzwBounds
import DedupPipeline.Server.LzwHw
import DedupPipeline.Server.LzwOld
import DedupPipeline.Server.LzwOldAgreement
import DedupPipeline.Server.LzwTable
import DedupPipeline.Server.Overflow
import DedupPipeline.Server.Packing
import DedupPipeline.Server.Positions
import DedupPipeline.Server.PrefixTree
import DedupPipeline.Server.Reassembly
import DedupPipeline.Server.Receive
import DedupPipeline.Server.ReceiveBytes
import DedupPipeline.Server.RecordOrder
import DedupPipeline.Server.Sha256
import DedupPipeline.Server.Sha256Final
import DedupPipeline.Server.Sha256Hw
import DedupPipeline.Server.Sha256Rounds
import DedupPipeline.Server.Sha256Stream
import DedupPipeline.Server.Versions
import DedupPipeline.Test.StringDecoder
import DedupPipeline.Test.StringLzw
import DedupPipeline.Test.StringRoundTrip
