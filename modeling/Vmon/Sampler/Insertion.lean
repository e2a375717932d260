import Vmon.Sampler.RoundTrip

/-!
# A member more

A request with a member that is no `req-id` and no `get-stats` should be read as the request
without it. The loop does not skip the value of such a member, so a string in it that
abbreviates one of the words is read as a key, and what stands after it as its value.
`unknown_member_iff` says when the member makes no difference.

## Main definitions

* `Untouched` — the promise for a request with the member.
* `SaysNothing` — read as the word that its key abbreviates, the member says nothing new.
-/

namespace Vmon

/-- **The promise** for the request `text`, which has one member more than a request that is
accepted as `sr`: it is accepted as `sr` too, and only members of the object are read. -/
structure Untouched (lib : UuidLib) (stray : ℕ → Bool) (ms : List (Bytes × Tree))
    (text : Bytes) (size : ℕ) (sr : SampleRequest) : Prop where
  same : samplerParseRequest lib stray text size = .ok sr
  members : OnlyMembersRead text (tokenTable stray text size) ms

/-- What the member says is nothing new to the request `sr`, in which the members `ms` come after
it: it gives no id, the id of the request, or one that a later member replaces; and no flag that
is not set. A member whose key abbreviates no word says nothing at all. -/
def SaysNothing (lib : UuidLib) (sr : SampleRequest) (m : Bytes × Tree) (ms : List (Bytes × Tree)) :
    Prop :=
  ∃ said, readMember lib m = some said ∧
    (∀ id, said.id = some id →
      id = sr.uuid ∨ ∃ m' ∈ ms, ∃ said', readMember lib m' = some said' ∧ said'.id ≠ none) ∧
    sr.stats ||| said.stats = sr.stats

theorem saysNothing_of_not_taken {lib : UuidLib} {sr : SampleRequest} {k : Bytes} {v : Tree}
    {ms : List (Bytes × Tree)} (hk : ¬Taken k) : SaysNothing lib sr (k, v) ms := by
  rw [Taken, not_or] at hk
  exact ⟨{}, by simp [readMember, hk], by simp, by simp⟩

/-- Members give an id where one of them does. -/
theorem readMembers_id {lib : UuidLib} {ms : List (Bytes × Tree)} {said : Said}
    (h : readMembers lib ms = some said) :
    said.id ≠ none ↔ ∃ m ∈ ms, ∃ said', readMember lib m = some said' ∧ said'.id ≠ none := by
  induction ms generalizing said with
  | nil =>
    cases h
    simp
  | cons m ms ih =>
    rw [readMembers] at h
    obtain ⟨first, hfirst, h⟩ := Option.bind_eq_some_iff.mp h
    obtain ⟨rest, hrest, rfl⟩ := Option.map_eq_some_iff.mp h
    have ih := ih hrest
    simp only [List.exists_mem_cons_iff, hfirst, Option.some.injEq, exists_eq_left', ← ih, Said.then]
    cases rest.id <;> simp

/-- A member in the middle makes no difference to what is said. -/
theorem tell_middle_iff (sr : SampleRequest) (b c : Said) :
    (sr.tell b).tell c = sr.tell c ↔
      (∀ id, b.id = some id → id = (sr.tell c).uuid ∨ c.id ≠ none) ∧
        (sr.tell c).stats ||| b.stats = (sr.tell c).stats := by
  have hstats : sr.stats ||| b.stats ||| c.stats = (sr.stats ||| c.stats) ||| b.stats := by
    rw [UInt32.or_assoc, UInt32.or_assoc, UInt32.or_comm b.stats]
  simp only [SampleRequest.tell, SampleRequest.mk.injEq, hstats]
  refine and_congr_left fun _ => ?_
  cases hb : b.id <;> cases hc : c.id <;> simp

/-- **An unknown member makes no difference exactly where** no stray word is in the request and
the key, if it abbreviates a word, says nothing new by it. -/
theorem unknown_member_iff (lib : UuidLib) (stray stray' : ℕ → Bool) (ms ms' : List (Bytes × Tree))
    (k : Bytes) (v : Tree) (text more text' more' : Bytes) (sr : SampleRequest)
    (htext : ObjectText (ms ++ ms') text) (htext' : ObjectText (ms ++ (k, v) :: ms') text')
    (hroom : objectTokens (ms ++ (k, v) :: ms') ≤ jsonRequestMaxTokens)
    (haccepted : samplerParseRequest lib stray (text ++ more) text.length = .ok sr) :
    Untouched lib stray' (ms ++ (k, v) :: ms') (text' ++ more') text'.length sr ↔
      NoStray (ms ++ (k, v) :: ms') ∧ SaysNothing lib sr (k, v) ms' := by
  have hroom' : objectTokens (ms ++ ms') ≤ jsonRequestMaxTokens := by
    simp only [objectTokens, Tree.entries, Tree.memberEntries_append, Tree.memberEntries,
      List.length_cons, List.length_append] at hroom ⊢
    omega
  -- both requests, where no word is stray
  have hboth : NoStray (ms ++ (k, v) :: ms') →
      (samplerParseRequest lib stray' (text' ++ more') text'.length = .ok sr ↔
        SaysNothing lib sr (k, v) ms') := by
    intro hstray
    obtain ⟨hread, -⟩ := @ObjectText.read lib stray _ text htext hroom' hstray.remove more
    obtain ⟨hread', -⟩ := @ObjectText.read lib stray' _ text' htext' hroom hstray more'
    rw [haccepted, readMembers_append] at hread
    rw [readMembers_append, readMembers] at hread'
    obtain ⟨all, hall, htell⟩ := Option.map_eq_some_iff.mp hread.symm
    obtain ⟨before, hbefore, hall⟩ := Option.bind_eq_some_iff.mp hall
    obtain ⟨after, hafter, rfl⟩ := Option.map_eq_some_iff.mp hall
    rw [SampleRequest.tell_then] at htell
    rw [hbefore, hafter] at hread'
    have hok : samplerParseRequest lib stray' (text' ++ more') text'.length = .ok sr ↔
        (samplerParseRequest lib stray' (text' ++ more') text'.length).toOption = some sr := by
      cases samplerParseRequest lib stray' (text' ++ more') text'.length <;> simp [Except.toOption]
    rw [hok, hread']
    cases hsaid : readMember lib (k, v) with
    | none => simp [SaysNothing, hsaid]
    | some said =>
      have hmiddle := tell_middle_iff (SampleRequest.zero.tell before) said after
      rw [htell, readMembers_id hafter] at hmiddle
      simpa [SaysNothing, hsaid, SampleRequest.tell_then] using hmiddle
  constructor
  · rintro ⟨hsame, hmembers⟩
    have hstray := htext'.noStray hroom hsame hmembers
    exact ⟨hstray, (hboth hstray).mp hsame⟩
  · rintro ⟨hstray, hnothing⟩
    exact ⟨(hboth hstray).mpr hnothing, (htext'.read lib hroom hstray more').2⟩

/-- What two requests below ask for. -/
private def vcpuMember : Bytes × Tree := (lit "get-stats", .array [.string (lit "vcpu")])

private theorem chars_word {w : Bytes} (hw : w.all Json.isPlain = true) : Json.Chars w :=
  Json.chars_of_plain (List.all_eq_true.mp hw)

private theorem vcpuMember_text :
    ObjectText [vcpuMember] (lit "\x7b\"get-stats\":[\"vcpu\"]\x7d") := by
  refine ⟨Tree.IsJson.readable ⟨chars_word (by decide), ⟨chars_word (by decide), trivial⟩, trivial⟩, ?_⟩
  exact spaced_compact (Tree.object [vcpuMember]).lexemes

/-- A member with an object in it. -/
theorem unknown_member_iff_nested : ∃ (ms : List (Bytes × Tree)) (text : Bytes),
    text = lit "\x7b\"vm\":\x7b\"up\":[true,\"yes\"]\x7d,\"get-stats\":[\"vcpu\"]\x7d" ∧
    Untouched libuuid (fun _ => false) ms text text.length
      { uuid := Vector.replicate 16 0, stats := 8 } := by
  let vm : Bytes × Tree := (lit "vm", .object [(lit "up", .array
    [.primitive (lit "true"), .string (lit "yes")])])
  have htext : ObjectText [vm, vcpuMember] (lit
      "\x7b\"vm\":\x7b\"up\":[true,\"yes\"]\x7d,\"get-stats\":[\"vcpu\"]\x7d") := by
    refine ⟨Tree.IsJson.readable ⟨chars_word (by decide), ⟨chars_word (by decide),
      ⟨.inl (by decide), chars_word (by decide), trivial⟩, trivial⟩,
      chars_word (by decide), ⟨chars_word (by decide), trivial⟩, trivial⟩, ?_⟩
    exact spaced_compact (Tree.object [vm, vcpuMember]).lexemes
  refine ⟨[vm, vcpuMember], _, rfl, ?_⟩
  have haccepted : samplerParseRequest libuuid (fun _ => false)
      (lit "\x7b\"get-stats\":[\"vcpu\"]\x7d" ++ []) (lit "\x7b\"get-stats\":[\"vcpu\"]\x7d").length =
        .ok { uuid := Vector.replicate 16 0, stats := 8 } := by decide +kernel
  have h := (unknown_member_iff libuuid (fun _ => false) (fun _ => false) [] [vcpuMember] vm.1 vm.2
    _ [] _ [] _ vcpuMember_text htext (by decide) haccepted).mpr
    ⟨⟨.inr (calm_of_wordless _ (by decide)), .inl (.inr (by decide)), trivial⟩,
      saysNothing_of_not_taken (by decide)⟩
  rwa [List.append_nil] at h

/-- The string `req-id` is read as a key, and the key `get-stats` as its value. -/
theorem unknown_member_fails : ∃ (lib : UuidLib) (stray : ℕ → Bool) (ms ms' : List (Bytes × Tree))
    (k : Bytes) (v : Tree) (text text' : Bytes) (sr : SampleRequest),
    text = lit "\x7b\"get-stats\":[\"vcpu\"]\x7d" ∧
    text' = lit "\x7b\"x\":\"req-id\",\"get-stats\":[\"vcpu\"]\x7d" ∧
    ObjectText (ms ++ ms') text ∧ ObjectText (ms ++ (k, v) :: ms') text' ∧
    k ≠ lit "req-id" ∧ k ≠ lit "get-stats" ∧
    objectTokens (ms ++ (k, v) :: ms') ≤ jsonRequestMaxTokens ∧
    samplerParseRequest lib stray text text.length = .ok sr ∧
    samplerParseRequest lib stray text' text'.length = .ok { sr with stats := 0 } ∧
    ¬Untouched lib stray (ms ++ (k, v) :: ms') text' text'.length sr := by
  have htext : ObjectText [(lit "x", .string (lit "req-id")), vcpuMember]
      (lit "\x7b\"x\":\"req-id\",\"get-stats\":[\"vcpu\"]\x7d") := by
    refine ⟨Tree.IsJson.readable ⟨chars_word (by decide), chars_word (by decide),
      chars_word (by decide), ⟨chars_word (by decide), trivial⟩, trivial⟩, ?_⟩
    exact spaced_compact (Tree.object [(lit "x", .string (lit "req-id")), vcpuMember]).lexemes
  refine ⟨libuuid, fun _ => false, [], [vcpuMember], lit "x", .string (lit "req-id"), _, _,
    { uuid := Vector.replicate 16 0, stats := 8 }, rfl, rfl, vcpuMember_text, htext, by decide,
    by decide, by decide, by decide +kernel, by decide +kernel, ?_⟩
  intro H
  have hsame := H.same
  revert hsame
  decide +kernel

end Vmon
