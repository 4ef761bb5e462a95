import Mustache.Storage.Directory
import Mustache.Storage.Memory
import Mustache.Storage.Recorder
import Mustache.Storage.Scripted
import Mustache.Template
import Mustache.Proofs.Loading
import Mustache.Proofs.Confinement
import Mustache.Proofs.Lines
import Mustache.Proofs.Printing
import Mustache.Proofs.Reparse
import Mustache.Proofs.Nesting
import Mustache.Proofs.Outcome
import Mustache.Proofs.Simulation
import Mustache.Proofs.Expansion
import Mustache.Proofs.Lifecycle
import Mustache.Proofs.Depth
import Mustache.Proofs.Markup
import Mustache.Proofs.Artifact
import Mustache.Proofs.Limit
import Mustache.Proofs.Recursion
import Mustache.Proofs.Similarity
import Mustache.Proofs.Relevance
import Mustache.Proofs.Continuation
import Mustache.Proofs.Concatenation
import Mustache.Proofs.TagStarts
import Mustache.Proofs.Blame
import Mustache.Proofs.Regularity
import Mustache.Proofs.Relocation
import Mustache.Proofs.CommentLine
import Mustache.Proofs.LineEndings
import Mustache.Proofs.Composition
import Mustache.Proofs.Complement
import Mustache.Proofs.EntryOrder
import Mustache.Proofs.ResolvedPath
import Mustache.Proofs.Lookup
import Mustache.Proofs.Indentation
import Mustache.Proofs.Unescape
import Mustache.Proofs.Recording
import Mustache.Proofs.Suffix
