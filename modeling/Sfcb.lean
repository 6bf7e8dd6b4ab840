import Sfcb.FileRepository.Isolation
import Sfcb.FileRepository.RecordCodec
import Sfcb.QualifierProvider.Declarations
import Sfcb.InternalProvider.ModifyInstance
import Sfcb.Query.NameLists
import Sfcb.Query.LikeMatching
import Sfcb.Query.IntegerComparison
import Sfcb.ProviderMgr.ProviderList
import Sfcb.HttpAdapter.Segmentation
import Sfcb.HttpAdapter.Verdict
import Sfcb.MsgQueue.Framing
import Sfcb.ClassProvider.AssocCounters
import Sfcb.ClassProvider.ConcurrentChanges
import Sfcb.ClassProvider.MergedClass
import Sfcb.Result.ResultBuffer
import Sfcb.ProviderDrv.ActiveFilters
import Sfcb.IndCIMXMLHandler.RetryIdentity
import Sfcb.IndCIMXMLHandler.RetryThread
import Sfcb.InteropProvider.Atomicity
import Sfcb.InteropProvider.InFlight
import Sfcb.Paths.NormalizedForms
import Sfcb.Paths.ScanSafety
import Sfcb.Sql.ChainedOperations
import Sfcb.Sql.InnerJoin
import Sfcb.Sql.FetchFirst
import Sfcb.Sql.WhereForms
import Sfcb.Support.Generations
import Sfcb.Cmpi.DateTime
import Sfcb.Cmpi.DynamicArray
import Sfcb.Object.ValueComparison
import Sfcb.Object.IndexedAccess
import Sfcb.Object.Release
import Sfcb.Support.MRWLock
import Sfcb.Support.ControlLine
import Sfcb.ClassProvider.Descendants
import Sfcb.ProviderMgr.RegistrationTriples
import Sfcb.ProviderMgr.Marshalling
import Sfcb.ProviderMgr.Enumeration
import Sfcb.CimXml.References
import Sfcb.CimXml.LexerBounds
import Sfcb.ProviderDrv.LifecycleRuns
import Sfcb.InternalProvider.AssociationAnswers
import Sfcb.ClassProviderGz.ClassCache
import Sfcb.HttpAdapter.Base64
import Sfcb.CimXml.GeneratedText
