import DefLang.Main
import DefLang.Proofs.Source
import DefLang.Proofs.Viable
import DefLang.Proofs.Cut
import DefLang.Proofs.Dialects
import DefLang.Proofs.Continuation
import DefLang.Proofs.Place
import DefLang.Proofs.Report
import DefLang.Proofs.Rendering
import DefLang.Proofs.Relabel
import DefLang.Proofs.Spacing
import DefLang.Proofs.Strict
import DefLang.Proofs.Causes
import DefLang.Proofs.Recompile
import DefLang.Proofs.Stages
import DefLang.Proofs.Arguments
import DefLang.Proofs.Flaw
import DefLang.Proofs.Header
import DefLang.Proofs.Braces
import DefLang.Proofs.Truncation
import DefLang.Proofs.Literal
import DefLang.Proofs.Coordinate
import DefLang.Proofs.Loop
import DefLang.Proofs.Boundary
import DefLang.Proofs.Longest
import DefLang.Proofs.Atoms
import DefLang.Proofs.Balance
