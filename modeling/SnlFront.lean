import SnlFront.Checking.Script
import SnlFront.Main
import SnlFront.Proofs.Backlog.History
import SnlFront.Proofs.Checking.Chains
import SnlFront.Proofs.Naming.FirstMeaning
import SnlFront.Proofs.Naming.Renaming
import SnlFront.Proofs.Scope.Canonical
import SnlFront.Proofs.Scope.Discipline
import SnlFront.Proofs.Scope.Shadowing
import SnlFront.Proofs.Source.Notices
import SnlFront.Proofs.Source.Spelling
import SnlFront.Proofs.Syntax.Dumps
import SnlFront.Proofs.Typing.Aliases
import SnlFront.Proofs.Typing.Decisions
import SnlFront.Proofs.Typing.Declarations
import SnlFront.Proofs.Unknown.Instances
import SnlFront.Scope.Script
import SnlFront.Syntax.Decoding
