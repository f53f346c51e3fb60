import Labyrinth.Analysis.Outline
import Labyrinth.Code.Parts
import Labyrinth.Command.Convert
import Labyrinth.Command.Inspect
import Labyrinth.Lexing.Workshop
import Labyrinth.Main
import Labyrinth.Proofs.Analysis.Bindings
import Labyrinth.Proofs.Code.Calls
import Labyrinth.Proofs.Code.Reading
import Labyrinth.Proofs.Code.Releases
import Labyrinth.Proofs.Code.Runtime
import Labyrinth.Proofs.Code.Saturation
import Labyrinth.Proofs.Command.Reporting
import Labyrinth.Proofs.Grammar.Passes
import Labyrinth.Proofs.Grammar.RoundTrip
import Labyrinth.Proofs.Grammar.Spans
import Labyrinth.Proofs.Maze.Border
import Labyrinth.Proofs.Maze.Drawing
import Labyrinth.Proofs.Maze.Steps
import Labyrinth.Proofs.Maze.Trail
import Labyrinth.Proofs.Token.Rules
import Labyrinth.Proofs.Tree.Flows
import Labyrinth.Text.Checksum
import Labyrinth.Tree.Mention
