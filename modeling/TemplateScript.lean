import TemplateScript.Command
import TemplateScript.Main
import TemplateScript.Proofs.Ending
import TemplateScript.Proofs.Extent
import TemplateScript.Proofs.Lexer.Coverage
import TemplateScript.Proofs.Lexer.Displacement
import TemplateScript.Proofs.Lexer.Fault
import TemplateScript.Proofs.Lexer.Heredoc
import TemplateScript.Proofs.Marks
import TemplateScript.Proofs.Plain
import TemplateScript.Proofs.Resolver
import TemplateScript.Proofs.Trivia
import TemplateScript.Proofs.Template.CloseTag
import TemplateScript.Proofs.Template.Tiling
import TemplateScript.Proofs.Template.Together
import TemplateScript.Proofs.Template.Drift
import TemplateScript.Proofs.Form
import TemplateScript.Proofs.Lexer.Session
import TemplateScript.Proofs.Lexer.Casts
import TemplateScript.Proofs.Lexer.Resolution
import TemplateScript.Proofs.Lexer.Tables
import TemplateScript.Proofs.Template.Failure
import TemplateScript.Proofs.Quoted.Interpolation
import TemplateScript.Proofs.Quoted.Parity
import TemplateScript.Proofs.Lexer.Spelling
import TemplateScript.Proofs.Template.Trim
import TemplateScript.Proofs.Quoted.Escape
import TemplateScript.Proofs.Numeral
import TemplateScript.Proofs.Lexer.Words
import TemplateScript.Proofs.Lexer.Progress
import TemplateScript.Proofs.Heredoc.Passing
import TemplateScript.Proofs.Listing.Decoding
import TemplateScript.Proofs.Command
import TemplateScript.Proofs.Template.TextEnd
import TemplateScript.Proofs.Usage
import TemplateScript.Proofs.Moves
import TemplateScript.Proofs.LongestSymbol
