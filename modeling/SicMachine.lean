import SicMachine.Main
import SicMachine.Session
import SicMachine.FileTree
import SicMachine.LongSource
import SicMachine.Proofs.StepFailures
import SicMachine.Proofs.ReferenceSemantics
import SicMachine.Proofs.ReachableMachines
import SicMachine.Proofs.PassOneAgreement
import SicMachine.Proofs.StepSequences
import SicMachine.Proofs.JumpTargets
import SicMachine.Proofs.ProgramPlacement
import SicMachine.Proofs.RunReports
import SicMachine.Proofs.StepWrites
import SicMachine.Proofs.ListingLines
import SicMachine.Proofs.LoadedPrograms
import SicMachine.Proofs.WrittenTokens
import SicMachine.Proofs.NumberTokens
import SicMachine.Proofs.ArrayReaders
import SicMachine.Proofs.WrittenRecords
import SicMachine.Proofs.ImageRoundTrip
import SicMachine.Proofs.ImageSymbols
import SicMachine.Proofs.JsonValues
import SicMachine.Proofs.ReadRecords
import SicMachine.Proofs.SavedMachines
import SicMachine.Proofs.ListedWords
import SicMachine.Proofs.FieldLayout
import SicMachine.Proofs.FirstFaults
import SicMachine.Proofs.SkippedLines
import SicMachine.Proofs.LetterCase
import SicMachine.Proofs.WriteHistories
import SicMachine.Proofs.Comparisons
import SicMachine.Proofs.Footprints
import SicMachine.Proofs.InstructionSteps
import SicMachine.Proofs.SubroutineReturns
import SicMachine.Proofs.Numerals
import SicMachine.Proofs.ListedSources
import SicMachine.Proofs.MissingOperands
import SicMachine.Proofs.StorageCounts
import SicMachine.Proofs.OperandEnds
import SicMachine.Proofs.EntryPoints
import SicMachine.Proofs.UpperCaseForms
import SicMachine.Proofs.RecordedSymbols
import SicMachine.Proofs.ByteOrder
import SicMachine.Proofs.OperandGrammars
import SicMachine.Proofs.SymbolListings
import SicMachine.Proofs.CountedLoops
import SicMachine.Proofs.DumpArguments
import SicMachine.Proofs.WordTexts
import SicMachine.Proofs.ListedAddresses
import SicMachine.Proofs.AssemblyReports
import SicMachine.Proofs.InstructionBits
import SicMachine.Proofs.WordLoops
