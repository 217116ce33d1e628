import LoxLang.Command.Directory
import LoxLang.Main
import LoxLang.Program.References
import LoxLang.Proofs.Parsing.Grammar
import LoxLang.Proofs.Parsing.Completeness
import LoxLang.Proofs.Running.Tracing
import LoxLang.Proofs.Running.Frames
import LoxLang.Proofs.Running.References
import LoxLang.Proofs.Running.TracedSession
import LoxLang.Proofs.Parsing.Identities
import LoxLang.Proofs.Parsing.Regular
import LoxLang.Proofs.Running.Alignment
import LoxLang.Proofs.Running.Spellings
import LoxLang.Proofs.Running.History
import LoxLang.Proofs.Running.Relations
import LoxLang.Proofs.Running.Restoration
import LoxLang.Proofs.Relabeling
import LoxLang.Proofs.Running.DepthLimit
import LoxLang.Proofs.Running.Recoding
import LoxLang.Proofs.Running.Termination
import LoxLang.Proofs.Parsing.Lines
import LoxLang.Proofs.Running.Equivariance
import LoxLang.Proofs.Running.Joined
import LoxLang.Proofs.Parsing.Shifting
import LoxLang.Proofs.Running.Transcripts
import LoxLang.Proofs.Running.Records
import LoxLang.Proofs.Running.Confinement
import LoxLang.Proofs.Channels
import LoxLang.Proofs.Running.ForLoops
import LoxLang.Proofs.Lossless
import LoxLang.Proofs.Scoping.Addresses
import LoxLang.Proofs.Scoping.WellFormed
import LoxLang.Proofs.Parsing.Fuel
import LoxLang.Proofs.Parsing.Segments
import LoxLang.Proofs.Parsing.Recovery
import LoxLang.Proofs.Lexemes
import LoxLang.Proofs.Munching
import LoxLang.Proofs.LineCounts
import LoxLang.Parsing.Indexed
import LoxLang.Proofs.Layout
import LoxLang.Proofs.Forests
import LoxLang.Proofs.Parsing.Semicolons
import LoxLang.Proofs.Running.Printed
import LoxLang.Proofs.Running.Cuts
import LoxLang.Proofs.Running.Construction
import LoxLang.Proofs.Parsing.Shape
import LoxLang.Proofs.Parenthesized
import LoxLang.Proofs.Running.GrowingHeap
