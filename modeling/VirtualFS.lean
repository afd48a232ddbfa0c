import VirtualFS.Store.Atomicity
import VirtualFS.Paths.Composition
import VirtualFS.Paths.Splitting
import VirtualFS.Store.FileData
import VirtualFS.Store.NameBuffer
import VirtualFS.Store.Rerooting
import VirtualFS.Store.Search
import VirtualFS.Store.Enforcement
import VirtualFS.Store.Truncation
import VirtualFS.Store.SubtreeDeletion
import VirtualFS.Store.FolderMoves
import VirtualFS.Store.SubFolders
import VirtualFS.Store.FileExtents
import VirtualFS.Store.NameValidation
import VirtualFS.Disk.StorageRuns
import VirtualFS.Disk.FirstFit
import VirtualFS.Workspace.CurrentFolder
import VirtualFS.Workspace.Entering
import VirtualFS.Workspace.CurrentPath
import VirtualFS.Workspace.Secrecy
import VirtualFS.Workspace.Failures
import VirtualFS.Cli.Printing
import VirtualFS.Cli.CommandParsing
import VirtualFS.Cli.MultiLineInput
import VirtualFS.Workspace.Undo
import VirtualFS.Workspace.Layouts
import VirtualFS.Workspace.Survival
import VirtualFS.Paths.Truncating
import VirtualFS.Cli.TreePrinting
import VirtualFS.Cli.SearchPrinting
import VirtualFS.Cli.Numerals
import VirtualFS.Cli.Program
import VirtualFS.Cli.UninitialisedMemory
