import DocBlocks.Annotation.Workbench
import DocBlocks.Main
import DocBlocks.Proofs.Annotation.Again
import DocBlocks.Proofs.Annotation.Inserted
import DocBlocks.Proofs.Annotation.Overwritten
import DocBlocks.Proofs.Comment.Single
import DocBlocks.Proofs.Splice.Parts
import DocBlocks.Proofs.Annotation.Rewritten
import DocBlocks.Proofs.Disk.Written
import DocBlocks.Proofs.Disk.Located
import DocBlocks.Proofs.Annotation.Committed
import DocBlocks.Proofs.Annotation.Gated
import DocBlocks.Proofs.Annotation.Interleaved
import DocBlocks.Proofs.Disk.Walk
import DocBlocks.Proofs.Annotation.Visited
import DocBlocks.Proofs.Extraction.Outermost
import DocBlocks.Proofs.Comment.Sliced
import DocBlocks.Proofs.Annotation.Sliced
import DocBlocks.Proofs.Annotation.Requested
import DocBlocks.Proofs.Comment.Stack
import DocBlocks.Proofs.Annotation.Fixed
import DocBlocks.Proofs.Annotation.OwnLines
import DocBlocks.Proofs.Annotation.Previewed
import DocBlocks.Proofs.Splice.OnePass
import DocBlocks.Proofs.Comment.Restacked
import DocBlocks.Proofs.Description.Contained
import DocBlocks.Proofs.Comment.Maximal
import DocBlocks.Proofs.Comment.Surrounded
import DocBlocks.Proofs.Description.Lined
import DocBlocks.Proofs.Annotation.Apart
import DocBlocks.Proofs.Splice.Rearranged
import DocBlocks.Proofs.Comment.Reindented
import DocBlocks.Proofs.Extraction.Faults
import DocBlocks.Proofs.CommandLine.Model
import DocBlocks.Proofs.Text.Runs
import DocBlocks.Proofs.Description.Segmented
import DocBlocks.Proofs.Extraction.Called
