import ScriptKit.Editor.Server
import ScriptKit.Grammar.Reader
import ScriptKit.Main
import ScriptKit.Proofs.BrokenBlocks
import ScriptKit.Proofs.ConsoleAgreement
import ScriptKit.Proofs.DeclaredSymbols
import ScriptKit.Proofs.DepthLimit
import ScriptKit.Proofs.DiagnosticLines
import ScriptKit.Proofs.ErrorOrder
import ScriptKit.Proofs.FailureOrigin
import ScriptKit.Proofs.Flattening
import ScriptKit.Proofs.Footprint
import ScriptKit.Proofs.ForgottenSemicolon
import ScriptKit.Proofs.Isolation
import ScriptKit.Proofs.LastTexts
import ScriptKit.Proofs.Layout
import ScriptKit.Proofs.Lexemes
import ScriptKit.Proofs.ListingIndentation
import ScriptKit.Proofs.ListingUnambiguous
import ScriptKit.Proofs.Markers
import ScriptKit.Proofs.PrintedIntegers
import ScriptKit.Proofs.Remainder
import ScriptKit.Proofs.RunReport
import ScriptKit.Proofs.TreeHeight
