import MonkeyLang.Node.Equality
import MonkeyLang.Main
import MonkeyLang.Proofs.Grammar.Exact
import MonkeyLang.Proofs.Node.Readable
import MonkeyLang.Proofs.Token.Scanning
import MonkeyLang.Proofs.Node.Canonical
import MonkeyLang.Proofs.Reading.Kept
import MonkeyLang.Proofs.RoundTrip
import MonkeyLang.Proofs.Evaluation.Keeps
import MonkeyLang.Proofs.Store.Growth
import MonkeyLang.Proofs.Evaluation.Frames
import MonkeyLang.Proofs.Store.Reach
import MonkeyLang.Proofs.Evaluation.Throwing
import MonkeyLang.Proofs.Evaluation.Agreement
import MonkeyLang.Proofs.Evaluation.Faults
import MonkeyLang.Proofs.Evaluation.Watched
import MonkeyLang.Proofs.Node.Discipline
import MonkeyLang.Proofs.Run.Gives
import MonkeyLang.Proofs.Store.Confined
import MonkeyLang.Proofs.Evaluation.Returning
import MonkeyLang.Proofs.Evaluation.Returns
import MonkeyLang.Proofs.Node.Like
import MonkeyLang.Proofs.Value.Like
import MonkeyLang.Proofs.Store.Like
import MonkeyLang.Proofs.Run.Simulates
import MonkeyLang.Proofs.Evaluation.Canonical
import MonkeyLang.Proofs.Token.Concatenation
import MonkeyLang.Proofs.Grammar.Extension
import MonkeyLang.Proofs.Reading.Bound
import MonkeyLang.Proofs.Reading.Concatenation
import MonkeyLang.Proofs.Evaluation.InTurn
import MonkeyLang.Proofs.Node.Nested
import MonkeyLang.Proofs.Value.Nested
import MonkeyLang.Proofs.Evaluation.Guarded
import MonkeyLang.Proofs.Session
import MonkeyLang.Proofs.Invariant
import MonkeyLang.Proofs.Evaluation.Guarding
import MonkeyLang.Proofs.Store.Standing
import MonkeyLang.Proofs.Session.Sound
import MonkeyLang.Proofs.Session.Range
import MonkeyLang.Proofs.Evaluation.Hidden
import MonkeyLang.Proofs.Session.Again
import MonkeyLang.Proofs.Evaluation.Depth
import MonkeyLang.Proofs.Session.Identity
import MonkeyLang.Proofs.Reading.Errors
import MonkeyLang.Proofs.Token.Cutting
import MonkeyLang.Proofs.Token.Separated
import MonkeyLang.Proofs.Evaluation.Arithmetic
import MonkeyLang.Proofs.Evaluation.Hashes
import MonkeyLang.Proofs.Session.Keyed
import MonkeyLang.Proofs.Reading.Stored
import MonkeyLang.Proofs.Evaluation.ReadBack
import MonkeyLang.Proofs.Store.History
import MonkeyLang.Proofs.Evaluation.Traversal
import MonkeyLang.Proofs.Fnv
import MonkeyLang.Proofs.Evaluation.TextKeys
import MonkeyLang.Proofs.Evaluation.Steady
import MonkeyLang.Proofs.Repl
