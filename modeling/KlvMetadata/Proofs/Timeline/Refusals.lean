import KlvMetadata.Proofs.Timeline.Runs

/-!
# Packets That Fail

A packet can fail at many places: its trailer may be missing, its body may break a
rule of the standard, any of its values may not be readable, or what was read may be
no set or have no timestamp. The state of a demuxer outlives a failure, so nothing
takes back what was changed until then. Nothing has to, because the first change comes
behind the last place where a packet can fail.

A run is therefore the run over the packets that did not fail. Which packets these are
is found out on the way, each being tried on the demuxer that is there when it comes.
But a packet fails or not whatever was recorded before it, so leaving out those that
fail makes no other packet fail, and nothing more is left out of a run that is repeated
without them.

## Main definitions

* `Demuxer.fails`: True if a packet fails; a seek never does.
* `Demuxer.survivors`: The requests of a run that do not fail.

## Theorems

* `Demuxer.eq_of_demux_error`: A packet that fails changes nothing.
* `Demuxer.fails_packet_iff`: Whether a packet fails is a matter of the formats.
* `Demuxer.perform_of_fails`, `formats_perform`: What a request leaves.
* `Demuxer.survivors_eq_filter`: Which requests are left does not depend on the state.
* `Demuxer.failing_packet_changes_nothing`: What fails may as well not have come.
-/

namespace KlvMetadata

namespace Demuxer

/-- A packet that fails changes nothing. -/
theorem eq_of_demux_error {p : Packet} {d d' : Demuxer} {e : Error}
    (h : demux p d = .error e d') : d' = d := by
  rcases demux_cases p d with ⟨_, e', he⟩ | ⟨time, entries, _, status, hok⟩ | ⟨_, status, hok⟩
  · rw [he] at h
    injection h with _ hd
    exact hd.symm
  · rw [hok] at h
    contradiction
  · rw [hok] at h
    contradiction

/-- True if a request is a packet that cannot be recorded. -/
def fails (d : Demuxer) : Request → Bool
  | .packet p =>
    match demux p d with
    | .ok _ _ => false
    | .error _ _ => true
  | .seek _ => false

/-- A packet fails if it says nothing to the formats, whatever was recorded before. -/
theorem fails_packet_iff (d : Demuxer) (p : Packet) :
    d.fails (.packet p) ↔ reading d.formats p = .nothing := by
  rw [fails]
  rcases demux_cases p d with
    ⟨hreading, e, he⟩ | ⟨time, entries, hreading, status, hok⟩ | ⟨hreading, status, hok⟩
  · simp only [hreading, he]
  · simp only [hreading, hok, Bool.false_eq_true, reduceCtorEq]
  · simp only [hreading, hok, Bool.false_eq_true, reduceCtorEq]

/-- Demuxers with the same formats refuse the same requests. -/
theorem fails_congr {d d' : Demuxer} (h : d.formats = d'.formats) (request : Request) :
    d.fails request = d'.fails request := by
  cases request with
  | packet p => rw [Bool.eq_iff_iff, fails_packet_iff, fails_packet_iff, h]
  | seek time => rfl

theorem perform_of_fails {d : Demuxer} {request : Request} (h : d.fails request) :
    d.perform request = d := by
  cases request with
  | packet p =>
      rw [fails] at h
      rw [perform]
      cases hd : demux p d with
      | ok status d' =>
          rw [hd] at h
          contradiction
      | error e d' => exact eq_of_demux_error hd
  | seek time => contradiction

/-- No request registers a format. -/
theorem formats_perform (d : Demuxer) (request : Request) :
    (d.perform request).formats = d.formats := by
  cases request with
  | packet p =>
      rw [perform]
      rcases demux_cases p d with ⟨_, e, he⟩ | ⟨time, entries, _, status, hok⟩ | ⟨_, status, hok⟩
      · rw [he]
      · rw [hok]
        rfl
      · rw [hok]
        rfl
  | seek time => rfl

/-- The requests of a run that do not fail, each tried on the demuxer that those before
    it have left. -/
def survivors : Demuxer → List Request → List Request
  | _, [] => []
  | d, request :: requests =>
    if d.fails request then survivors (d.perform request) requests
    else request :: survivors (d.perform request) requests

/-- Which requests are left does not depend on what was recorded on the way. -/
theorem survivors_eq_filter (d : Demuxer) (requests : List Request) :
    survivors d requests = requests.filter fun request => !d.fails request := by
  -- By induction on the requests, for every demuxer that those before may have left.
  induction requests generalizing d with
  | nil => rfl
  | cons request requests ih =>
      have hsame : (fun r => !(d.perform request).fails r) = fun r => !d.fails r :=
        funext fun r => congrArg not (fails_congr (formats_perform d request) r)
      rw [survivors, ih, hsame, List.filter_cons]
      cases d.fails request <;> rfl

/-- A packet that fails leaves the demuxer as it was: its timeline, its time, its keys
    and its formats. So a run over any requests ends where the run over those that do
    not fail ends, and in that run none fails. -/
theorem failing_packet_changes_nothing :
    (∀ (p : Packet) (d d' : Demuxer) (e : Error), demux p d = .error e d' → d' = d) ∧
    ∀ (d : Demuxer) (requests : List Request),
      (survivors d requests).foldl perform d = requests.foldl perform d ∧
      survivors d (survivors d requests) = survivors d requests := by
  refine ⟨fun p d d' e h => eq_of_demux_error h, fun d requests => ⟨?_, ?_⟩⟩
  · -- What fails is left out on one side and changes nothing on the other.
    induction requests generalizing d with
    | nil => rfl
    | cons request requests ih =>
        rw [survivors, List.foldl_cons, ← ih]
        by_cases hfails : d.fails request
        · rw [if_pos hfails, perform_of_fails hfails]
        · rw [if_neg hfails, List.foldl_cons]
  · rw [survivors_eq_filter, survivors_eq_filter, List.filter_filter]
    simp only [Bool.and_self]

/-- A packet without a payload, and one with a value that goes beyond its body, come
    between a packet and a seek. Neither leaves anything. -/
theorem failing_packet_changes_nothing_between :
    let before : Demuxer := run ⟨none, some sampleFormat⟩ [.packet (samplePacket 5 65)]
    let bare : Packet := .ofPayload Standard.st0601Key []
    let overrun : Packet :=
      .ofPayload Standard.st0601Key [2, 8, 0, 0, 0, 0, 0, 0, 0, 7, 3, 2, 65, 1, 2, 0, 0]
    (∃ after, demux bare before = .error (.framing .checksumMissing) after ∧ after = before) ∧
    [.packet bare, .packet overrun, .seek 9].foldl perform before = before.seek 9 := by
  intro before bare overrun
  have hbare : demux bare before = .error (.framing .checksumMissing) before := by rfl
  have hleft : survivors before [.packet bare, .packet overrun, .seek 9] = [.seek 9] := by rfl
  refine ⟨⟨before, hbare, failing_packet_changes_nothing.1 bare before before _ hbare⟩, ?_⟩
  rw [← (failing_packet_changes_nothing.2 before _).1, hleft]
  rfl

end Demuxer

end KlvMetadata
