import TinaPackage.AesSeek
import TinaPackage.AvTimer
import TinaPackage.AwPoolRuns
import TinaPackage.BitReaderRuns
import TinaPackage.CdxQueueFifo
import TinaPackage.DashBandwidths
import TinaPackage.DeliverTimer
import TinaPackage.EbmlNumbers
import TinaPackage.FbmCounters
import TinaPackage.FbmRelease
import TinaPackage.FbmTwoStreams
import TinaPackage.FramerateEstimater
import TinaPackage.FsCacheRuns
import TinaPackage.FsSimpleCache
import TinaPackage.HlsMarks
import TinaPackage.HlsUrls
import TinaPackage.HttpChunkedRuns
import TinaPackage.Mb32Tiles
import TinaPackage.MessageQueueRuns
import TinaPackage.MovKeyframes
import TinaPackage.MovTimes
import TinaPackage.Mp4Boxes
import TinaPackage.PictureConversions
import TinaPackage.PictureCrops
import TinaPackage.PoolTree
import TinaPackage.RwCrc16
import TinaPackage.StartCode
import TinaPackage.StreamCacheBuffering
import TinaPackage.StreamCacheNearest
import TinaPackage.StreamManagerReturns
import TinaPackage.TcpStreamLifetime
import TinaPackage.TestRunnerEnds
import TinaPackage.TestRunnerHandling
import TinaPackage.TestRunnerInputs
import TinaPackage.TsCrc
import TinaPackage.TsFile
import TinaPackage.UdpStreamRuns
import TinaPackage.VdecoderRuns
