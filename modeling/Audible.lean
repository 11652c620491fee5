import Audible.StoreData
import Audible.StoreThreads
import Audible.StoreReferences
import Audible.StoreComparisons
import Audible.StoreDeadlocks
import Audible.RecoderCodec
import Audible.RecoderRoundTrip
import Audible.RecoderStream
import Audible.RecoderLength
import Audible.RecoderSize
import Audible.RecoderUsage
import Audible.RecoderOptions
import Audible.RecoderAnnotation
import Audible.RecoderCrypt
import Audible.RecoderFrames
import Audible.RecoderWhole
import Audible.RecoderRepeats
import Audible.ServerProtocol
import Audible.ServerValues
import Audible.ServerSession
import Audible.ServerTransfers
import Audible.ServerKeys
import Audible.ServerReplies
import Audible.Holding
import Audible.PrinterData
import Audible.PrinterJobs
import Audible.Chains
import Audible.PrinterRemoves
import Audible.Runs
import Audible.PrinterConversions
import Audible.PrinterPaths
import Audible.PrinterExclusive
import Audible.PrinterRace
import Audible.PrinterStarts
import Audible.PrinterOnce
import Audible.PrinterGroups
import Audible.PrinterChoice
import Audible.PrinterRecords
import Audible.PrinterDeclares
import Audible.PrinterFiles
import Audible.PrinterArgs
import Audible.PrinterBatch
import Audible.PrinterIdle
import Audible.PrinterInterrupts
import Audible.PrinterSignals
import Audible.Descriptors
import Audible.PrinterPipeline
import Audible.Relating
import Audible.PrinterPrinting
import Audible.PrinterDocuments
import Audible.TransactionData
import Audible.TransactionSteps
import Audible.TransactionLocks
import Audible.TransactionFinal
import Audible.TransactionSafety
import Audible.Waiting
import Audible.TransactionHolds
import Audible.TransactionWaits
import Audible.TransactionCommits
import Audible.TransactionReturns
import Audible.TransactionAbort
import Audible.TransactionRefs
import Audible.TransactionFini
import Audible.ServerRegistry
import Audible.ServerThreads
import Audible.ServerSettles
import Audible.ServerShutdown
import Audible.Cells
import Audible.Returning
import Audible.HeapData
import Audible.HeapWords
import Audible.HeapLists
import Audible.HeapBlocks
import Audible.HeapFree
import Audible.HeapGrow
import Audible.HeapSplit
import Audible.HeapGaps
import Audible.HeapSearch
import Audible.HeapMalloc
import Audible.HeapRealloc
import Audible.HeapLives
import Audible.HeapCalls
import Audible.HeapRuns
import Audible.HeapSentinels
import Audible.HeapFrame
import Audible.HeapLaws
import Audible.HeapTwice
import Audible.HeapOrders
import Audible.HeapUndo
import Audible.HeapRounds
import Audible.HeapBuffers
