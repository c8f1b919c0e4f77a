import Scriptlet.Host.Instruments
import Scriptlet.Main
import Scriptlet.Proofs.Grammar.Piece
import Scriptlet.Proofs.Grammar.Content
import Scriptlet.Proofs.Moved.Tree
import Scriptlet.Proofs.Grammar.Budget
import Scriptlet.Proofs.Grammar.Cut
import Scriptlet.Proofs.Token.Flat
import Scriptlet.Proofs.Token.Lines
import Scriptlet.Proofs.Source.Cut
import Scriptlet.Proofs.Relabelled.Value
import Scriptlet.Proofs.Relabelled.Eval
import Scriptlet.Proofs.Moved.Value
import Scriptlet.Proofs.Moved.Eval
import Scriptlet.Proofs.Eval.Keeps
import Scriptlet.Proofs.Prompt.Session
import Scriptlet.Proofs.Prompt.Batch
import Scriptlet.Proofs.Grammar.Opening
import Scriptlet.Proofs.Grammar.Recovery
import Scriptlet.Proofs.Grammar.Reread
import Scriptlet.Proofs.Grammar.Printable
import Scriptlet.Proofs.ReadBack.Lexed
import Scriptlet.Proofs.ReadBack.Constant
import Scriptlet.Proofs.ReadBack.Data
import Scriptlet.Proofs.Tree.Rule
import Scriptlet.Proofs.Value.Functions
import Scriptlet.Proofs.Value.Equality
import Scriptlet.Proofs.Eval.Contract
import Scriptlet.Proofs.Eval.Meets
import Scriptlet.Proofs.Eval.Names
import Scriptlet.Proofs.Eval.Reach
import Scriptlet.Proofs.Eval.Signals
import Scriptlet.Proofs.Eval.Limit
import Scriptlet.Proofs.Eval.Termination
import Scriptlet.Proofs.Source.Layout
import Scriptlet.Proofs.Source.Places
import Scriptlet.Proofs.Eval.Places
import Scriptlet.Proofs.Prompt.Places
import Scriptlet.Proofs.Eval.Without
import Scriptlet.Proofs.Eval.Unmentioned
import Scriptlet.Proofs.Source.Reformatted
import Scriptlet.Proofs.Eval.Frames
import Scriptlet.Proofs.Grammar.Formed
import Scriptlet.Proofs.Eval.Formed
import Scriptlet.Proofs.Grammar.Layered
import Scriptlet.Proofs.Token.Spelled
import Scriptlet.Proofs.Token.Pieces
import Scriptlet.Proofs.Source.Division
import Scriptlet.Proofs.Source.Spaced
import Scriptlet.Proofs.Source.Joined
import Scriptlet.Proofs.Value.Lens
import Scriptlet.Proofs.Eval.Assignment
import Scriptlet.Proofs.Eval.Depth
import Scriptlet.Proofs.Relabelled.Numbered
import Scriptlet.Proofs.Eval.Quiet
import Scriptlet.Proofs.Eval.Compound
import Scriptlet.Proofs.Heap.Forest
import Scriptlet.Proofs.Token.Indentation
import Scriptlet.Proofs.Number.Whole
import Scriptlet.Proofs.Value.Keys
import Scriptlet.Proofs.Value.Items
import Scriptlet.Proofs.Eval.Values
import Scriptlet.Proofs.Eval.Collections
import Scriptlet.Proofs.Source.Numbers
import Scriptlet.Proofs.Host.Progression
import Scriptlet.Proofs.Source.Excerpt
import Scriptlet.Proofs.Grammar.Forward
