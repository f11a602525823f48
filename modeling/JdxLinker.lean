import JdxLinker.Elf.GnuProperties
import JdxLinker.Elf.SymbolLookup
import JdxLinker.Gc.Traversal
import JdxLinker.InitFini.Constructors
import JdxLinker.LayoutRules.RuleOrder
import JdxLinker.Macho.Collection
import JdxLinker.Macho.Imports
import JdxLinker.OutputOrder.Order
import JdxLinker.PersistentState.Matching
import JdxLinker.PersistentState.StructureDigest
import JdxLinker.Plt.Arrival
import JdxLinker.Relocation.AArch64Stores
import JdxLinker.Relocation.DebugSections
import JdxLinker.Relocation.UlebPairs
import JdxLinker.Relr.GotBitmap
import JdxLinker.Resolution.ArchiveSelection
import JdxLinker.Resolution.Visibility
import JdxLinker.Resolution.Wrapping
import JdxLinker.Riscv.AttributesMerged
import JdxLinker.Riscv.LowPart
import JdxLinker.Script.Constants
import JdxLinker.Script.Precedence
import JdxLinker.Script.RedirectGraph
import JdxLinker.Script.SymbolAddress
import JdxLinker.SortedSections.Accounting
import JdxLinker.StringMerge.Carry
import JdxLinker.SymbolVersion.DefinitionSpace
import JdxLinker.SymbolVersion.Link
import JdxLinker.SymbolVersion.MatchOrder
import JdxLinker.Symtab.Filled
import JdxLinker.Thunks.Branch
import JdxLinker.Thunks.Skipping
import JdxLinker.Trie.Reservation
import JdxLinker.Wasm.LinearMemory
import JdxLinker.Wasm.Linking.Synthesised
