import ChunkedTree.Main
import ChunkedTree.Proofs.Level
import ChunkedTree.Proofs.Logarithm
import ChunkedTree.Proofs.WellFormed
import ChunkedTree.Proofs.ChunkRun
import ChunkedTree.Proofs.Seam
import ChunkedTree.Proofs.NumberLookup
import ChunkedTree.Proofs.TornChunk
import ChunkedTree.Proofs.RoundTrip
import ChunkedTree.Proofs.Packing
import ChunkedTree.Proofs.Alignment
import ChunkedTree.Proofs.DepthWalk
import ChunkedTree.Proofs.TokenFront
import ChunkedTree.Proofs.TextPieces
import ChunkedTree.Proofs.ValueTokens
import ChunkedTree.Proofs.DocumentText
import ChunkedTree.Proofs.ObjectText
import ChunkedTree.Proofs.ParameterDocument
import ChunkedTree.Proofs.KnownMembers
import ChunkedTree.Proofs.Rebuild
import ChunkedTree.Proofs.FileStore
import ChunkedTree.Proofs.Readers
import ChunkedTree.Proofs.Reopening
import ChunkedTree.Proofs.Consistency
import ChunkedTree.Proofs.NumberReach
import ChunkedTree.Proofs.Verdict
import ChunkedTree.Proofs.LayoutReport
import ChunkedTree.Proofs.Classification
import ChunkedTree.Proofs.NumbersInUse
import ChunkedTree.Proofs.CountedChunks
import ChunkedTree.Proofs.DepthWork
import ChunkedTree.Proofs.Growth
import ChunkedTree.Proofs.DepthTotals
import ChunkedTree.Proofs.ChunkMembership
import ChunkedTree.Proofs.HintedDepth
import ChunkedTree.Proofs.Numeral
import ChunkedTree.Proofs.PrintedText
import ChunkedTree.Proofs.PrintedTable
import ChunkedTree.Proofs.TableAndNode
