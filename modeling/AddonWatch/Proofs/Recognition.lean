import AddonWatch.Proofs.Bookkeeping
import AddonWatch.Proofs.Resending

namespace AddonWatch

/-- The key can be read back from its text, and is that of a recognised addon. -/
structure AddonKey.IsRecognised (names : List String) (key : AddonKey) : Prop where
  wellFormed : key.IsWellFormed
  name : key.name ∈ names

/-- If the text can be read as a key at all, then as that of a recognised addon. -/
def Recognises (names : List String) (text : String) : Prop :=
  ∀ key, AddonKey.parse text = .ok key → key.name ∈ names

/-- The text is that of a recognised addon's key. -/
def Recognised (names : List String) (text : String) : Prop :=
  ∃ key : AddonKey, key.IsRecognised names ∧ text = key.text

theorem AddonKey.IsRecognised.recognises {names : List String} {key : AddonKey}
    (h : key.IsRecognised names) : Recognises names key.text := by
  intro other hp
  obtain ⟨he, hw⟩ := AddonKey.parse_eq_ok_iff.mp hp
  exact AddonKey.text_inj h.wellFormed hw he ▸ h.name

theorem Recognises.recognised {names : List String} {text : String} {key : AddonKey}
    (h : Recognises names text) (hp : AddonKey.parse text = .ok key) :
    key.IsRecognised names ∧ text = key.text := by
  obtain ⟨he, hw⟩ := AddonKey.parse_eq_ok_iff.mp hp
  exact ⟨⟨hw, h key hp⟩, he⟩

/-- The name by which an object is sifted out is the one that its text is read with, whatever the
namespace holds. -/
theorem recognises_text {names : List String} (hn : ∀ name ∈ names, '/' ∉ name.toList)
    {q : ObjectName} (hq : q.name ∈ names) : Recognises names q.text := by
  intro key hp
  obtain ⟨he, -, -, hns, hname⟩ := AddonKey.parse_eq_ok_iff.mp hp
  have hlist := congrArg String.toList he
  rw [AddonKey.toList_text] at hlist
  obtain ⟨ns?, name⟩ := q
  have hfree := hn name hq
  cases ns? with
  | none =>
    have hslash : '/' ∈ name.toList := by
      have : name.toList = key.ns.toList ++ '/' :: key.name.toList := hlist
      simp [this]
    exact absurd hslash hfree
  | some ns =>
    have hboth : ns.toList ++ '/' :: name.toList = key.ns.toList ++ '/' :: key.name.toList := by
      simpa [ObjectName.text] using hlist
    have hcount := congrArg (List.count '/') hboth
    simp only [List.count_append, List.count_cons_self, List.count_eq_zero.mpr hfree,
      List.count_eq_zero.mpr hns, List.count_eq_zero.mpr hname] at hcount
    have hnone : '/' ∉ ns.toList := List.count_eq_zero.mp (by omega)
    have hspan := congrArg (List.span (· ≠ '/')) hboth
    rw [span_slash hnone, span_slash hns] at hspan
    have hsame : name = key.name := by simpa [String.toList_inj] using (Prod.mk.inj hspan).2
    exact hsame ▸ hq

namespace Desk

/-- What a desk is to try again is for recognised addons, and it works on what it has read. -/
structure PutsOff (desk : Desk) (names : List String) : Prop where
  reading : desk.IsReading
  retries : ∀ e ∈ desk.retries, Recognised names e.1
  alarms : ∀ e ∈ desk.alarms.entries, Recognised names e.2

namespace PutsOff

variable {desk desk' : Desk} {names : List String}

theorem crash (desk : Desk) (message : String) (names : List String) :
    (desk.crash message).PutsOff names where
  reading text work rest h := by simp [Desk.crash] at h
  retries e h := by simp [Desk.crash] at h
  alarms e h := by simp [Desk.crash, Alarms.entries] at h

theorem concludes {key : String} {site after : Site} {verdict : Verdict} (h : desk.PutsOff names)
    (hk : desk.KeepsRetries) (hfault : ∀ fault, verdict = .failed fault →
      fault.isRetryable = true → Recognised names key)
    (hc : desk.Concludes key site verdict after desk') :
    (∃ message, desk' = desk.crash message) ∨ (∀ e ∈ desk'.retries, Recognised names e.1) ∧
      ∀ e ∈ desk'.alarms.entries, Recognised names e.2 := by
  cases hc with
  | forgets _ _ _ _ _ _ _ _ hf =>
    right
    obtain ⟨alarms, rfl, ha⟩ := forget_eq hf
    refine ⟨fun e he => h.retries e (List.mem_filter.mp he).1, fun e he => ?_⟩
    rcases ha with ⟨rfl, -⟩ | ⟨retry, id, -, -, hr⟩
    · exact h.alarms e he
    · rw [(Alarms.entries_remove? hr).2] at he
      exact h.alarms e (List.mem_filter.mp he).1
  | retries fault _ _ hr hretry =>
    right
    have hkey := hfault fault rfl hretry
    obtain ⟨id, alarms, rfl, hset⟩ := retryLater_eq hr
    refine ⟨fun e he => ?_, fun e he => ?_⟩
    · rcases List.mem_cons.mp he with rfl | he
      · exact hkey
      · exact h.retries e (List.mem_filter.mp he).1
    · rcases hset with ⟨retry, -, -, hs⟩ | ⟨-, hi⟩
      · exact h.alarms e ((Alarms.reset?_perm hk.numbered hs).2.mem_iff.mp he)
      · rcases List.mem_cons.mp ((Alarms.insert?_perm hi).2.2.mem_iff.mp he) with rfl | hm
        · exact hkey
        · exact h.alarms e hm
  | _ => exact .inl ⟨_, rfl⟩

theorem pops {site : Site} {found : Option Alarm} {alarms : Alarms} (h : desk.PutsOff names)
    (hk : desk.KeepsRetries) (hp : desk.alarms.pop site.now = (found, alarms)) :
    ∀ e ∈ alarms.entries, Recognised names e.2 := fun e he =>
  h.alarms e ((Alarms.pop_perm hk.numbered hp).2.mem_iff.mpr (List.mem_append_right _ he))

theorem moves {isSealed : Bool} {site site' : Site} (h : desk.PutsOff names)
    (ho : desk.Orderly site (Recognises names)) (hm : desk.Moves isSealed site site' desk') :
    desk'.PutsOff names := by
  have hreading := hm.isReading h.reading
  cases hm with
  | closes alarms hphase hend hp =>
    refine ⟨hreading, h.retries, ?_⟩
    rcases hp with rfl | hp
    · exact h.alarms
    · exact h.pops ho.retries hp
  | wakes alarm alarms hphase hh hp =>
    refine ⟨hreading, fun e he => ?_, h.pops ho.retries hp⟩
    obtain ⟨old, ho, rfl⟩ := List.mem_map.mp he
    split <;> exact h.retries old ho
  | takes key rest alarms hphase hh hp => exact ⟨hreading, h.retries, h.pops ho.retries hp⟩
  | looks rest alarms hphase hh hp => exact ⟨hreading, h.retries, h.pops ho.retries hp⟩
  | turns alarms hphase hh hp => exact ⟨hreading, h.retries, h.pops ho.retries hp⟩
  | concludes text work rest next after roster verdict desk' hphase hh hmoves hc =>
    have htext := ho.texts text (by simp [hphase, DeskPhase.texts])
    have hreads := h.reading text work rest hphase
    have hfault : ∀ fault, verdict = .failed fault → fault.isRetryable = true →
        Recognised names text := by
      rintro fault rfl hretry
      obtain ⟨key, hp⟩ := (hmoves.fault_reads hreads).mp hretry
      exact ⟨key, htext.recognised hp⟩
    have hkept : ({ desk with roster := roster, phase := .working rest } : Desk).PutsOff names :=
      ⟨fun _ _ _ hw => (by cases hw), h.retries, h.alarms⟩
    rcases hkept.concludes (ho.retries.working roster rest) hfault hc with
      ⟨message, rfl⟩ | ⟨hretries, halarms⟩
    · exact .crash _ message names
    · exact ⟨hreading, hretries, halarms⟩
  | _ => exact ⟨hreading, h.retries, h.alarms⟩

end PutsOff

end Desk

namespace Supervision

/-- Whatever is pending, registered or running is for recognised addons. -/
structure Selective (s : Supervision) : Prop where
  names : ∀ name ∈ s.names, '/' ∉ name.toList
  desks : ∀ desk ∈ s.desks, desk.Orderly s.site (Recognises s.names) ∧ desk.PutsOff s.names
  children : ∀ (i : Nat) (f : Follower), s.site.bodies[i]? = some (.guarded f) →
    f.assignment.key.IsRecognised s.names
  exits : ∀ text ∈ s.site.exits, Recognises s.names text

namespace Selective

variable {s next : Supervision}

theorem of_isFresh (hn : ∀ name ∈ s.names, '/' ∉ name.toList) (hf : s.IsFresh) : s.Selective where
  names := hn
  desks desk hd := by simp [hf.desks] at hd
  children i f hb := by simp [Site.bodies, hf.children] at hb
  exits text ht := by simp [hf.exits] at ht

theorem child {site : Site} {i : Nat} {child : Child} {f : Follower} (h : s.Selective)
    (hc : s.site.children[i]? = some child) (hb : child.body = .guarded f)
    (hm : s.site.ChildMoves i child f site) :
    ({ s with site := site } : Supervision).Selective := by
  have hown := h.children i f (Site.getElem?_bodies.mpr ⟨child, hc, hb⟩)
  refine ⟨h.names, fun desk hd => ?_, fun j g hg => ?_, fun text ht => ?_⟩
  · exact ⟨(h.desks desk hd).1.grows (hm.ages hc hb).grows, (h.desks desk hd).2⟩
  · rcases hm.bodies hc hb with he | ⟨after, f', hgo, he⟩
    · exact h.children j g (he ▸ hg)
    · rcases getElem?_set_body he hg with ⟨-, rfl⟩ | hold
      · exact hgo.assignment.1 ▸ hown
      · exact h.children j g hold
  · have hexits : text ∈ s.site.exits ∨ text = f.assignment.key.text := by
      cases hm with
      | stops => exact .inl ht
      | goesOn after f' hn hgo =>
        obtain ⟨hub, trace, rfl⟩ := hgo.site_eq
        exact .inl ht
      | ends after ending trace hn hgo =>
        obtain ⟨hub, left, rfl⟩ := hgo.site_eq
        dsimp only at ht
        split at ht
        · exact (List.mem_append.mp ht).imp_right List.mem_singleton.mp
        · exact .inl ht
    rcases hexits with hold | rfl
    · exact h.exits text hold
    · exact hown.recognises

theorem desk {site : Site} {i : Nat} {desk desk' : Desk} (h : s.Selective)
    (hd : s.desks[i]? = some desk) (hm : desk.Moves s.isSealed s.site site desk') :
    ({ s with site := site, desks := s.desks.set i desk' } : Supervision).Selective := by
  obtain ⟨horderly, hputs⟩ := h.desks desk (List.mem_of_getElem? hd)
  refine ⟨h.names, fun other ho => ?_, fun j g hg => ?_, fun text ht => ?_⟩
  · rcases List.mem_or_eq_of_mem_set ho with hold | rfl
    · exact ⟨(h.desks other hold).1.grows hm.grows, (h.desks other hold).2⟩
    · exact ⟨hm.orderly horderly, hputs.moves horderly hm⟩
  · rcases hm.bodies with he | ⟨text, key, attempt, rest, hphase, he⟩
    · exact h.children j g (he ▸ hg)
    · rcases getElem?_append_body he hg with hold | ⟨-, rfl⟩
      · exact h.children j g hold
      · obtain ⟨hk, rfl, -, hassign⟩ := horderly.work text _ rest hphase
        have hmine := horderly.texts key.text (by simp [hphase, DeskPhase.texts])
        have hkey : (attempt.follower s.site).assignment.key = key := hassign
        exact hkey ▸ ⟨hk, hmine key (AddonKey.parse_eq_ok_iff.mpr ⟨rfl, hk⟩)⟩
  · exact h.exits text (hm.exits ▸ ht)

theorem lead (h : s.Selective) (hm : s.LeadMoves next) : next.Selective := by
  obtain ⟨hub, trace, exits, he, -⟩ := hm.shared
  have hages : s.site.Ages next.site := he ▸ .hub_trace s.site hub trace exits
  have hchildren : ∀ (i : Nat) (f : Follower), next.site.bodies[i]? = some (.guarded f) →
      f.assignment.key.IsRecognised next.names := by
    intro i f hb
    rw [hm.names]
    exact h.children i f (hm.bodies ▸ hb)
  have hexits : ∀ text ∈ next.site.exits, Recognises next.names text := by
    intro text ht
    rw [hm.names]
    exact h.exits text (hm.exits text ht)
  refine ⟨hm.names ▸ h.names, fun desk hd => ?_, hchildren, hexits⟩
  rw [hm.names]
  rcases hm.sent with ⟨call, deadline, -, rfl⟩ | ⟨more, hs, hsent⟩
  · obtain ⟨hub, trace, lead, he, -⟩ := Orderly.begin_eq s
    rw [he] at hd
    obtain rfl := List.eq_of_mem_replicate hd
    exact ⟨Orderly.fresh_desk _ _ _ _, fun _ _ _ hw => (by cases hw), by simp,
      fun e he => by simp [Alarms.entries] at he⟩
  · obtain ⟨i, hi⟩ := List.mem_iff_getElem?.mp hd
    rw [hs.desks] at hi
    obtain ⟨old, ho, rfl⟩ := Option.map_eq_some_iff.mp hi
    obtain ⟨horderly, hputs⟩ := h.desks old (List.mem_of_getElem? ho)
    refine ⟨Orderly.append_inbox (horderly.grows hages.grows) fun text ht => ?_,
      hputs.reading, hputs.retries, hputs.alarms⟩
    rcases hsent i text ht with hold | ⟨q, hq, rfl⟩
    · exact h.exits text hold
    · exact recognises_text h.names hq

theorem assigned {i : Nat} {a : Assignment} (h : s.Selective) (ha : s.site.assignment? i = some a) :
    a.key.IsRecognised s.names := by
  obtain ⟨child, hc, hb⟩ := Option.bind_eq_some_iff.mp ha
  obtain ⟨f, hbody, rfl⟩ := Child.guarded_of_assignment? hb
  exact h.children i f (Site.getElem?_bodies.mpr ⟨child, hc, hbody⟩)

theorem registered (h : s.Selective) : ∀ desk ∈ s.desks, ∀ e ∈ desk.roster.entries,
    e.1.IsRecognised s.names := by
  intro desk hd e he
  obtain ⟨-, a, ha, hkey, -⟩ := (h.desks desk hd).1.entries e he
  exact hkey ▸ h.assigned ha

theorem moves {w : Surroundings} (h : s.Selective) (ho : s.Orderly) (hm : s.Moves w next) :
    next.Selective := by
  have hsame : ∀ site : Site, s.site.Grows site → site.bodies = s.site.bodies →
      site.exits = s.site.exits → ({ s with site := site } : Supervision).Selective := by
    intro site hg hb he
    exact ⟨h.names, fun desk hd => ⟨(h.desks desk hd).1.grows hg, (h.desks desk hd).2⟩,
      fun i f hf => h.children i f (hb ▸ hf), fun text ht => h.exits text (he ▸ ht)⟩
  cases hm with
  | task t _ hs =>
    cases t with
    | child i =>
      obtain ⟨site, child, f, rfl, hc, hb, -, hmoves⟩ := stepChild_moves hs ho.staffed
      exact h.child hc hb hmoves
    | desk i =>
      obtain ⟨desk, desk', site, hd, hmoves, rfl⟩ := stepDesk_cases hs
      exact h.desk hd hmoves
    | lead => exact h.lead (stepLead_moves hs)
  | hub hub => exact hsame _ (Site.Ages.hub_trace s.site hub _ _).grows rfl rfl
  | time moment => exact hsame _ (.time s.site moment) rfl rfl
  | halt => exact hsame _ (.halt s.site) rfl rfl

end Selective

end Supervision

end AddonWatch
