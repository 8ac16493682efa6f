import Rv32iRtl.Writeback
import Rv32iRtl.FetchOrder
import Rv32iRtl.PipelineRefinement
import Rv32iRtl.PassDetector
import Rv32iRtl.TextLines
import Rv32iRtl.HexConversion
import Rv32iRtl.DumpFormat
import Rv32iRtl.ImageFetch
import Rv32iRtl.PassRuns
import Rv32iRtl.Backtrack
import Rv32iRtl.VerilogText
import Rv32iRtl.Validator
import Rv32iRtl.Generator
import Rv32iRtl.LintFixContract
import Rv32iRtl.RunPipeline
import Rv32iRtl.VerifiedReports
import Rv32iRtl.ContractSync
import Rv32iRtl.LintCheck
import Rv32iRtl.Retrieval
import Rv32iRtl.Corpus
import Rv32iRtl.CorpusRecovery
import Rv32iRtl.LeftmostMatch
import Rv32iRtl.PortList
import Rv32iRtl.Segments
import Rv32iRtl.DeclarationReading
import Rv32iRtl.PortExtraction
import Rv32iRtl.StageContract
import Rv32iRtl.RegisterZero
import Rv32iRtl.EvenAddresses
import Rv32iRtl.RankSum
import Rv32iRtl.RankFusion
import Rv32iRtl.Memo
import Rv32iRtl.SummaryCache
import Rv32iRtl.WordSpan
import Rv32iRtl.VerilogExtraction
import Rv32iRtl.FixAnswer
import Rv32iRtl.FencedResponse
import Rv32iRtl.CommentRemoval
import Rv32iRtl.ModuleSource
import Rv32iRtl.ModuleChunks
import Rv32iRtl.CorpusModules
import Rv32iRtl.ModuleNames
import Rv32iRtl.EnumDefines
import Rv32iRtl.PendingWrites
import Rv32iRtl.SlotMachine
import Rv32iRtl.Lockstep
import Rv32iRtl.ExecutionTime
import Rv32iRtl.OrderlyRuns
import Rv32iRtl.ResetAnywhere
import Rv32iRtl.UntouchedMemory
import Rv32iRtl.SeparatedList
import Rv32iRtl.JsonText
import Rv32iRtl.PortContracts
import Rv32iRtl.BuildHistory
import Rv32iRtl.ContractFiles
import Rv32iRtl.TestRunner
import Rv32iRtl.LastWrite
import Rv32iRtl.PipelineCalls
import Rv32iRtl.KnowledgeBase
import Rv32iRtl.PromptContext
import Rv32iRtl.SpacedText
import Rv32iRtl.InstructionTiming
import Rv32iRtl.UndefinedWords
import Rv32iRtl.ReportedScore
