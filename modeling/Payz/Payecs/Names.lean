import Payz.Payecs.Code
import Payz.Payecs.Newsystem
import Payz.Systems.Trigger

/-! # What the name of a system means

`payecs_newsystem` takes the name as it stands between the quotes; everything else that
reads a name, `payecs_setdefaultsystems` and the advance of an entity, undoes its escapes.
So a literal means the same everywhere exactly if it holds no escape.
-/

namespace Payz

open Runs

end Payz
