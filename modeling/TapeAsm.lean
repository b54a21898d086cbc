import TapeAsm.Source.Scanner
import TapeAsm.Program.Reading
import TapeAsm.Program.Outline
import TapeAsm.Program.Optimization
import TapeAsm.Asm.Listing
import TapeAsm.Compile
import TapeAsm.Files.Volume
import TapeAsm.Files.System
import TapeAsm.Cli.Session
import TapeAsm.Main
import TapeAsm.Proofs.Run.Program
import TapeAsm.Proofs.Program.LeadingLoops
import TapeAsm.Proofs.Program.LoopOrder
import TapeAsm.Proofs.Program.OnePass
import TapeAsm.Proofs.Program.Descent
import TapeAsm.Proofs.Program.Accounts
import TapeAsm.Proofs.Source.Brackets
import TapeAsm.Proofs.Source.Reading
import TapeAsm.Proofs.Source.Groups
import TapeAsm.Proofs.Source.Printing
import TapeAsm.Proofs.Run.Text
import TapeAsm.Proofs.Source.Walks
import TapeAsm.Proofs.Source.Place
import TapeAsm.Proofs.Compile.Diagnostics
import TapeAsm.Proofs.Asm.Effects
import TapeAsm.Proofs.Asm.Frame
import TapeAsm.Proofs.Asm.Labels
import TapeAsm.Proofs.Asm.Placement
import TapeAsm.Proofs.Asm.Simulation
import TapeAsm.Proofs.Asm.Discipline
import TapeAsm.Proofs.Asm.Loops
import TapeAsm.Proofs.Asm.Characters
import TapeAsm.Proofs.Asm.Comments
import TapeAsm.Proofs.Compile.Layout
import TapeAsm.Proofs.Asm.Building
import TapeAsm.Proofs.Asm.Forms
import TapeAsm.Proofs.Cli.Outcome
import TapeAsm.Proofs.Asm.Bounds
import TapeAsm.Proofs.Asm.Confinement
import TapeAsm.Proofs.Asm.Renumbering
import TapeAsm.Proofs.Asm.Choices
import TapeAsm.Proofs.Source.Families
import TapeAsm.Proofs.Program.Cursors
import TapeAsm.Proofs.Asm.Shortenings
import TapeAsm.Proofs.Asm.Pairs
import TapeAsm.Proofs.Asm.Columns
import TapeAsm.Proofs.Source.Census
import TapeAsm.Proofs.Compile.Census
import TapeAsm.Proofs.Cli.Sections
import TapeAsm.Proofs.Cli.TokenDump
