import ImportAtlas.Build
import ImportAtlas.Library.Buffers
import ImportAtlas.Main
import ImportAtlas.Records
import ImportAtlas.Proofs.Table
import ImportAtlas.Proofs.NormalPath
import ImportAtlas.Proofs.Naming
import ImportAtlas.Proofs.Enumeration
import ImportAtlas.Proofs.Rebuild
import ImportAtlas.Proofs.Loading
import ImportAtlas.Proofs.Lookups
import ImportAtlas.Proofs.Invariant
import ImportAtlas.Proofs.Reachable
import ImportAtlas.Proofs.Resolution
import ImportAtlas.Proofs.Later
import ImportAtlas.Proofs.SymbolSets
import ImportAtlas.Proofs.Walk
import ImportAtlas.Proofs.Gathering
import ImportAtlas.Proofs.Accesses
import ImportAtlas.Proofs.Questions
import ImportAtlas.Proofs.Reading
import ImportAtlas.Proofs.QueryHistory
import ImportAtlas.Proofs.Editing
import ImportAtlas.Proofs.Precedence
import ImportAtlas.Proofs.Fallback
import ImportAtlas.Proofs.RootOrder
import ImportAtlas.Proofs.FullBuild
import ImportAtlas.Proofs.JsonText
import ImportAtlas.Proofs.StoredKeys
import ImportAtlas.Proofs.StoredNotes
import ImportAtlas.Proofs.DiskWalk
import ImportAtlas.Proofs.Storing
import ImportAtlas.Proofs.WarmStart
import ImportAtlas.Proofs.TextModules
import ImportAtlas.Proofs.RelativeImports
import ImportAtlas.Proofs.DirectoryRemoval
import ImportAtlas.Proofs.Entries
import ImportAtlas.Proofs.SourceFiles
import ImportAtlas.Proofs.BuildTrace
import ImportAtlas.Proofs.DiskDirs
import ImportAtlas.Proofs.SearchPathCaches
import ImportAtlas.Proofs.InterruptedSave
import ImportAtlas.Proofs.Candidates
import ImportAtlas.Proofs.WalkOrder
import ImportAtlas.Proofs.Activation
import ImportAtlas.Proofs.Preloading
import ImportAtlas.Proofs.LetterCase
import ImportAtlas.Proofs.SymbolTables
import ImportAtlas.Proofs.ImportPrefix
import ImportAtlas.Proofs.ExactPrefix
import ImportAtlas.Proofs.Inlining
import ImportAtlas.Proofs.Collected
import ImportAtlas.Proofs.Regrouping
import ImportAtlas.Proofs.ClassScopes
import ImportAtlas.Proofs.Readers
import ImportAtlas.Proofs.ClassNames
import ImportAtlas.Proofs.Redefinitions
import ImportAtlas.Proofs.ReceiverTargets
import ImportAtlas.Proofs.Comments
import ImportAtlas.Proofs.ImportSpelling
import ImportAtlas.Proofs.ImportLayout
import ImportAtlas.Proofs.KeyEncoding
import ImportAtlas.Proofs.Restoring
import ImportAtlas.Proofs.DistinctAnswers
import ImportAtlas.Proofs.CanonicalPaths
import ImportAtlas.Proofs.LongestRoot
import ImportAtlas.Proofs.SettingsFile
import ImportAtlas.Proofs.WellFormedText
import ImportAtlas.Proofs.StrictReading
