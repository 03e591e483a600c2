import OpenRecovery.Effects
import OpenRecovery.FallibleRuns
import OpenRecovery.Words
import OpenRecovery.MtdUtils
import OpenRecovery.MtdReading
import OpenRecovery.MtdWriting
import OpenRecovery.MtdFaults
import OpenRecovery.MtdCuts
import OpenRecovery.MtdOffsets
import OpenRecovery.MtdEcc
import OpenRecovery.System
import OpenRecovery.FlashImage
import OpenRecovery.FlashImageRestart
import OpenRecovery.FlashImageLengths
import OpenRecovery.NandroidBackup
import OpenRecovery.BsPatch
import OpenRecovery.ImgPatch
import OpenRecovery.PatchBounds
import OpenRecovery.FileContents
import OpenRecovery.ApplyPatch
import OpenRecovery.SystemFrames
import OpenRecovery.ApplyPatchCheck
import OpenRecovery.Roots
import OpenRecovery.MountedRoots
import OpenRecovery.RootFrames
import OpenRecovery.Bootloader
import OpenRecovery.BootMessages
import OpenRecovery.BootUpdate
import OpenRecovery.RecoveryArgs
import OpenRecovery.ArgsRestart
import OpenRecovery.Edify
import OpenRecovery.EdifySemantics
import OpenRecovery.Updater
import OpenRecovery.ArgumentFailures
import OpenRecovery.EdifyLexer
import OpenRecovery.EdifyParser
import OpenRecovery.EdifyPrinting
import OpenRecovery.ScriptBounds
import OpenRecovery.ScriptSlices
import OpenRecovery.ViableStacks
import OpenRecovery.SourceSpans
import OpenRecovery.MovedScripts
import OpenRecovery.SourceTexts
import OpenRecovery.ArgumentCounts
import OpenRecovery.HashTable
import OpenRecovery.HashTableMap
import OpenRecovery.ZipRecords
import OpenRecovery.ZipSelection
import OpenRecovery.ZipArchive
import OpenRecovery.ZipBounds
import OpenRecovery.Deflate
import OpenRecovery.ZipBuffers
import OpenRecovery.ZipContents
import OpenRecovery.ZipExtract
import OpenRecovery.ZipFailures
import OpenRecovery.ZipReports
import OpenRecovery.ZipIndex
import OpenRecovery.UpdaterProtocol
import OpenRecovery.Console
import OpenRecovery.ConsoleWindow
import OpenRecovery.ConsoleCuts
import OpenRecovery.ConsoleHistory
import OpenRecovery.ConsoleRows
import OpenRecovery.ConsoleSequences
import OpenRecovery.ConsoleColors
import OpenRecovery.ThemeFiles
import OpenRecovery.LineWrapping
import OpenRecovery.TextOverlay
import OpenRecovery.MenuWindow
import OpenRecovery.CheckedBuffers
import OpenRecovery.MenuTables
import OpenRecovery.Sha1Text
import OpenRecovery.SecondInit
import OpenRecovery.FileTrees
import OpenRecovery.DirUtil
import OpenRecovery.DirectoryPaths
import OpenRecovery.DirectoryRemoval
import OpenRecovery.DirectoryPermissions
import OpenRecovery.DirectoryCreation
import OpenRecovery.InteractiveMenu
import OpenRecovery.Menu
import OpenRecovery.MenuStack
import OpenRecovery.SortedTable
import OpenRecovery.YaffsImage
import OpenRecovery.MkYaffsImage
import OpenRecovery.ScriptOutput
import OpenRecovery.Unyaffs
import OpenRecovery.YaffsChunks
import OpenRecovery.UnyaffsRuns
import OpenRecovery.YaffsAttributes
import OpenRecovery.YaffsRoundTrip
import OpenRecovery.YaffsAttributeChanges
import OpenRecovery.BackupRuns
import OpenRecovery.BackupWrites
import OpenRecovery.BackupWalk
import OpenRecovery.BackupImages
import OpenRecovery.BackupFaults
import OpenRecovery.BackupExceptions
import OpenRecovery.NandroidRestore
import OpenRecovery.Traces
import OpenRecovery.FreeCache
import OpenRecovery.FreeSpaceChecks
import OpenRecovery.ImgDiff
import OpenRecovery.ImgDiffMerge
import OpenRecovery.ImgDiffReading
import OpenRecovery.EmbeddedPatches
import OpenRecovery.ImgDiffMain
import OpenRecovery.ImgDiffLayout
import OpenRecovery.ImgDiffChunks
import OpenRecovery.ImgDiffChecks
import OpenRecovery.ImgPatchRuns
import OpenRecovery.ImgDiffRuns
import OpenRecovery.ImgDiffZip
import OpenRecovery.ImgDiffZipRuns
import OpenRecovery.ImgPatchChunks
import OpenRecovery.ImgPatchOutput
import OpenRecovery.MtdPrefixes
import OpenRecovery.PatchFrames
import OpenRecovery.PatchTermination
import OpenRecovery.BsDiff
import OpenRecovery.BsDiffBounds
import OpenRecovery.BsDiffRoundTrip
import OpenRecovery.PropertyFiles
import OpenRecovery.PropertyValues
import OpenRecovery.MtdLedger
import OpenRecovery.RawImages
import OpenRecovery.StopAndWait
import OpenRecovery.AdbSockets
import OpenRecovery.AdbPackets
import OpenRecovery.AdbStreams
import OpenRecovery.AdbSteps
import OpenRecovery.AdbOpening
import OpenRecovery.AdbRuns
import OpenRecovery.AdbSafety
import OpenRecovery.AdbWire
