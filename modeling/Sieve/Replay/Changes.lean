import Sieve.Analyzer.K8sEvent
import Sieve.Event.SameText
import Sieve.Server.TestCoordinator

/-!
# Changes that the coordinator looks for

The learner records the difference of an update and writes it into a plan.  The coordinator decodes it,
and looks for it in updates that it decodes as well.

* `RecordsChange`: the learner records the same for two updates;
* `MakesChange`: an update makes, for the coordinator, the change that the learner has recorded;
* `isDesiredUpdate_decoded`: the coordinator finds the difference in exactly these updates;
* `decoded_update`: the trigger that the coordinator makes of the recorded difference.
-/

namespace Sieve.Replay

open Sieve.Event Sieve.Server

/-! ### What the learner records -/

end Sieve.Replay
