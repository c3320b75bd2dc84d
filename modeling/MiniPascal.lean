import MiniPascal.Main
import MiniPascal.Parser.Production
import MiniPascal.Proofs.Acceptance
import MiniPascal.Proofs.ExpressionParsing
import MiniPascal.Proofs.LayoutScanning
import MiniPascal.Proofs.LayoutRoundtrip
import MiniPascal.Proofs.LexemeSpelling
import MiniPascal.Proofs.LayoutLevels
import MiniPascal.Proofs.ParsedLayout
import MiniPascal.Proofs.Gaps
import MiniPascal.Proofs.ScanRun
import MiniPascal.Proofs.Places
import MiniPascal.Proofs.LongestMatch
import MiniPascal.Proofs.ProductionRuns
import MiniPascal.Proofs.FirstFault
import MiniPascal.Proofs.NestingBound
import MiniPascal.Proofs.ReaderRuns
import MiniPascal.Proofs.ScannerMachine
import MiniPascal.Proofs.FaultPlaces
import MiniPascal.Proofs.ParsedShape
import MiniPascal.Proofs.Diagnostics
import MiniPascal.Proofs.RegistryHistories
import MiniPascal.Proofs.PlaceIndependence
import MiniPascal.Proofs.JoinedTexts
import MiniPascal.Proofs.LineEnds
import MiniPascal.Proofs.StatementLists
import MiniPascal.Proofs.ScannedFaults
import MiniPascal.Proofs.TokenListings
import MiniPascal.Proofs.OutlineReading
import MiniPascal.Proofs.HashSums
import MiniPascal.Proofs.Numerals
import MiniPascal.Proofs.FileWrites
import MiniPascal.Proofs.Reformatting
import MiniPascal.Proofs.Brackets
import MiniPascal.Proofs.Phrases
import MiniPascal.Proofs.OpenedLayouts
import MiniPascal.Proofs.ScriptDiscovery
import MiniPascal.Proofs.BenchmarkRuns
