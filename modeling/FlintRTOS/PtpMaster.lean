import FlintRTOS.PtpCore
import Mathlib.Data.Nat.Basic

/-!
# Foreign traffic and the choice of the master

`rxKind` says what `ptp_core_rx` does with a message before any handler runs:
which handler it reaches, or none.  From it follow that traffic of others cannot
disturb the slave, and that the selected master is the least of all that announce,
in whatever order they do.
-/

namespace FlintRTOS

/-! ### Where a message goes -/

/-- The handler a message reaches. -/
inductive RxKind where
  | ignored
  | announce
  | sync
  | followUp
  | delayResp
deriving DecidableEq, Repr

/-- The message is from the selected master. -/
def IsMaster (g : PtpCore) (b : Bytes) : Prop :=
  g.haveMaster = true ∧ sourcePort b = some g.master.portId

instance (g : PtpCore) (b : Bytes) : Decidable (IsMaster g b) :=
  inferInstanceAs (Decidable (_ ∧ _))

/-- Too short, of another version, of another domain or our own. -/
def Unusable (g : PtpCore) (b : Bytes) : Prop :=
  b.length < ptpHeaderLength ∨ b[1]?.map (· &&& 0x0F) ≠ some 2 ∨
    b[4]? ≠ some g.self.domainNumber ∨ sourcePort b = some g.selfId

instance (g : PtpCore) (b : Bytes) : Decidable (Unusable g b) :=
  inferInstanceAs (Decidable (_ ∨ _))

def msgType (b : Bytes) : Option UInt8 := b[0]?.map (· &&& 0x0F)

def rxKind (g : PtpCore) (b : Bytes) (port : UInt16) : RxKind :=
  if Unusable g b then .ignored
  else if port = ptpEventPort then
    if msgType b = some 0x0 ∧ IsMaster g b then .sync else .ignored
  else if msgType b = some 0xB then .announce
  else if msgType b = some 0x8 ∧ IsMaster g b then .followUp
  else if msgType b = some 0x9 ∧ IsMaster g b then .delayResp
  else .ignored

variable {b : Bytes} {g g' g₀ : PtpCore} {a ds c : Dataset} {o : Overflow} {freq now : UInt64}
  {D : List Dataset} {i : Nat} {port : UInt16} {x : Ordering} {out : PtpOut} {nowMs : UInt32}
  {call : PtpCall}

theorem copyBytes_of_le {n : Nat} (h : i + n ≤ b.length) : ∃ v, copyBytes b i n = some v :=
  ⟨_, dif_pos h⟩

theorem fromMaster_eq {port : PortId} (h : sourcePort b = some port) :
    fromMaster b g = some (decide (IsMaster g b)) := by
  simp [fromMaster, IsMaster, h, cmpBytes_toList, Bool.decide_and]

/-- The engine runs the handler that `rxKind` names. -/
theorem ptpCoreRx_eq (o : Overflow) (freq : UInt64) (cnt : CntReads) (b : Bytes) (port : UInt16)
    (rxCnt : UInt64) (g : PtpCore) (c : PtpClock) :
    ptpCoreRx o freq cnt b port rxCnt g c =
      match rxKind g b port with
      | .ignored => some ⟨g, c, []⟩
      | .announce => handleAnnounce b g c
      | .sync => handleSync o freq cnt b rxCnt g c
      | .followUp => handleFollowUp o freq cnt b g c
      | .delayResp => handleDelayResp o b g c := by
  by_cases hlen : b.length < ptpHeaderLength
  · simp [ptpCoreRx, rxKind, Unusable, hlen]
  · have hlen' : 34 ≤ b.length := Nat.not_lt.mp hlen
    obtain ⟨source, hsource⟩ : ∃ v, sourcePort b = some v := copyBytes_of_le (by omega)
    have hfrom := fromMaster_eq (g := g) hsource
    have hver : b[1]? = some b[1] := List.getElem?_eq_getElem (by omega)
    have hdom : b[4]? = some b[4] := List.getElem?_eq_getElem (by omega)
    have htype : b[0]? = some b[0] := List.getElem?_eq_getElem (by omega)
    simp only [ptpCoreRx, rxKind, Unusable, msgType, hlen, hver, hdom, htype, hsource, hfrom,
      cmpBytes_toList, Option.map_some, Option.some.injEq, Option.bind_eq_bind, Option.bind_some,
      if_false, false_or, ne_eq, decide_eq_true_eq]
    by_cases hversion : ¬ b[1] &&& 0x0F = 2
    · simp only [if_pos hversion, if_pos (Or.inl hversion)]
    by_cases hdomain : ¬ b[4] = g.self.domainNumber
    · simp only [if_neg hversion, if_pos hdomain, if_pos (Or.inr (Or.inl hdomain))]
    by_cases hown : source = g.selfId
    · simp only [if_neg hversion, if_neg hdomain, if_pos hown, if_pos (Or.inr (Or.inr hown))]
    have husable : ¬ (¬ b[1] &&& 0x0F = 2 ∨ ¬ b[4] = g.self.domainNumber ∨ source = g.selfId) :=
      not_or.mpr ⟨hversion, not_or.mpr ⟨hdomain, hown⟩⟩
    simp only [if_neg hversion, if_neg hdomain, if_neg hown, if_neg husable]
    -- usable: the port and the type select the handler
    by_cases hport : port = ptpEventPort
    · by_cases hsync : b[0] &&& 0x0F = 0x0 ∧ IsMaster g b
      · simp only [if_pos hport, if_pos hsync]
      · simp only [if_pos hport, if_neg hsync]
    by_cases hannounce : b[0] &&& 0x0F = 0xB
    · simp only [if_neg hport, if_pos hannounce]
    by_cases hfollow : b[0] &&& 0x0F = 0x8 ∧ IsMaster g b
    · simp only [if_neg hport, if_neg hannounce, if_pos hfollow]
    by_cases hresp : b[0] &&& 0x0F = 0x9 ∧ IsMaster g b
    · simp only [if_neg hport, if_neg hannounce, if_neg hfollow, if_pos hresp]
    · simp only [if_neg hport, if_neg hannounce, if_neg hfollow, if_neg hresp]

theorem rxKind_of_unusable (h : Unusable g b) (port : UInt16) : rxKind g b port = .ignored := by
  simp [rxKind, h]

theorem rxKind_announce :
    rxKind g b port = .announce ↔
      ¬ Unusable g b ∧ port ≠ ptpEventPort ∧ msgType b = some 0xB := by
  unfold rxKind
  split_ifs <;> simp_all

/-- Only an Announce of another sender reaches a handler. -/
theorem rxKind_of_foreign (h : ¬ IsMaster g b) (port : UInt16) :
    rxKind g b port = .ignored ∨ rxKind g b port = .announce := by
  unfold rxKind
  split_ifs <;> simp_all

/-! ### Announce messages -/

theorem rd16_of_lt (h : i + 1 < b.length) : ∃ v, rd16 b i = some v := by
  simp [rd16, List.getElem?_eq_getElem h, List.getElem?_eq_getElem (Nat.lt_of_succ_lt h)]

theorem rdDataset_of_le (h : announceLenMin ≤ b.length) : ∃ ds, rdDataset b = some ds := by
  have hlen : 64 ≤ b.length := h
  obtain ⟨variance, hvariance⟩ := rd16_of_lt (b := b) (i := 50) (by omega)
  obtain ⟨steps, hsteps⟩ := rd16_of_lt (b := b) (i := 61) (by omega)
  obtain ⟨gm, hgm⟩ := copyBytes_of_le (b := b) (i := 53) (n := 8) (by omega)
  obtain ⟨source, hsource⟩ := copyBytes_of_le (b := b) (i := 20) (n := 10) (by omega)
  have h47 : b[47]? = some b[47] := List.getElem?_eq_getElem (by omega)
  have h48 : b[48]? = some b[48] := List.getElem?_eq_getElem (by omega)
  have h49 : b[49]? = some b[49] := List.getElem?_eq_getElem (by omega)
  have h52 : b[52]? = some b[52] := List.getElem?_eq_getElem (by omega)
  simp only [rdDataset, hvariance, hsteps, hgm, hsource, h47, h48, h49, h52,
    Option.bind_eq_bind, Option.bind_some, Option.some.injEq, exists_eq']

/-- The sender in a dataset is the source port of its message. -/
theorem sourcePort_of_rdDataset (h : rdDataset b = some ds) : sourcePort b = some ds.portId := by
  unfold rdDataset at h
  simp only [Option.bind_eq_bind, Option.bind_eq_some_iff] at h
  obtain ⟨_, _, _, _, _, _, _, _, _, _, _, _, _, _, port, hport, heq⟩ := h
  cases heq
  exact hport

/-- What `noteAnnounce` leaves alone. -/
structure SameButAnnounce (g g' : PtpCore) : Prop where
  eq : ∃ last timeout utc flags, g' = { g with
    lastAnnounceMs := last, announceTimeoutMs := timeout, utcOffset := utc, flags1 := flags }

theorem noteAnnounce_spec (h : announceLenMin ≤ b.length) (g : PtpCore) :
    ∃ g', noteAnnounce b g = some g' ∧ SameButAnnounce g g' := by
  have hlen : 64 ≤ b.length := h
  obtain ⟨utc, hutc⟩ := rd16_of_lt (b := b) (i := 44) (by omega)
  have h33 : b[33]? = some b[33] := List.getElem?_eq_getElem (by omega)
  have h7 : b[7]? = some b[7] := List.getElem?_eq_getElem (by omega)
  simp only [noteAnnounce, hutc, h33, h7, Option.bind_eq_bind, Option.bind_some]
  exact ⟨_, rfl, ⟨_, _, _, _, rfl⟩⟩

/-- Everything `handle_announce` does. -/
inductive AnnounceEffect (b : Bytes) (g : PtpCore) (c : PtpClock) : PtpOut → Prop where
  | short (hlen : b.length < announceLenMin) : AnnounceEffect b g c ⟨g, c, []⟩
  | refreshed {ds : Dataset} {g' : PtpCore} (hlen : announceLenMin ≤ b.length)
      (hds : rdDataset b = some ds) (hmaster : g.haveMaster = true)
      (hport : ds.portId = g.master.portId) (hg : SameButAnnounce { g with master := ds } g') :
      AnnounceEffect b g c ⟨g', c, []⟩
  | selected {ds : Dataset} {g' : PtpCore} (hlen : announceLenMin ≤ b.length)
      (hds : rdDataset b = some ds) (hbetter : g.haveMaster = false ∨ datasetCmp ds g.master < 0)
      (hg : SameButAnnounce (resetMeasurements { g with master := ds, haveMaster := true }) g') :
      AnnounceEffect b g c ⟨g', c, [.selected ds.portId]⟩
  | worse {ds : Dataset} (hlen : announceLenMin ≤ b.length) (hds : rdDataset b = some ds)
      (hmaster : g.haveMaster = true) (hport : ds.portId ≠ g.master.portId)
      (hworse : ¬ datasetCmp ds g.master < 0) : AnnounceEffect b g c ⟨g, c, []⟩

theorem handleAnnounce_effect (b : Bytes) (g : PtpCore) (c : PtpClock) :
    ∃ out, handleAnnounce b g c = some out ∧ AnnounceEffect b g c out := by
  by_cases hlen : b.length < announceLenMin
  · exact ⟨_, by simp only [handleAnnounce, hlen, if_true], .short hlen⟩
  have hlen' := Nat.not_lt.mp hlen
  obtain ⟨ds, hds⟩ := rdDataset_of_le hlen'
  simp only [handleAnnounce, if_neg hlen, hds, Option.bind_eq_bind, Option.bind_some,
    cmpBytes_toList]
  by_cases hrefresh : g.haveMaster = true ∧ ds.portId = g.master.portId
  · obtain ⟨g', hg', hsame⟩ := noteAnnounce_spec hlen' { g with master := ds }
    rw [if_pos hrefresh, hg']
    exact ⟨_, rfl, .refreshed hlen' hds hrefresh.1 hrefresh.2 hsame⟩
  rw [if_neg hrefresh]
  by_cases hbetter : ¬ g.haveMaster = true ∨ datasetCmp ds g.master < 0
  · obtain ⟨g', hg', hsame⟩ := noteAnnounce_spec hlen'
      (resetMeasurements { g with master := ds, haveMaster := true })
    rw [if_pos hbetter, hg']
    exact ⟨_, rfl, .selected hlen' hds (by simpa using hbetter) hsame⟩
  · rw [if_neg hbetter]
    obtain ⟨hmaster, hworse⟩ := not_or.mp hbetter
    have hmaster := not_not.mp hmaster
    exact ⟨_, rfl, .worse hlen' hds hmaster (fun hport => hrefresh ⟨hmaster, hport⟩) hworse⟩

/-- **Foreign traffic.**  A message that is too short, of another version or
    domain, or our own changes nothing.  One that is not from the selected master
    changes nothing either, unless it is an Announce of full length on another
    port than the event port and there is no master or it announces a better one. -/
theorem foreign_traffic_harmless (o : Overflow) (freq : UInt64) (cnt : CntReads) (b : Bytes)
    (port : UInt16) (rxCnt : UInt64) (g : PtpCore) (c : PtpClock) :
    ((b.length < 34 ∨ b[1]?.map (· &&& 0x0F) ≠ some 2 ∨ b[4]? ≠ some g.self.domainNumber ∨
        sourcePort b = some g.selfId) →
      ∃ out, ptpCoreRx o freq cnt b port rxCnt g c = some out ∧ out.core = g ∧ out.clock = c) ∧
    ((g.haveMaster = false ∨ sourcePort b ≠ some g.master.portId) →
      ∃ out, ptpCoreRx o freq cnt b port rxCnt g c = some out ∧
        (¬ (out.core = g ∧ out.clock = c) →
          msgType b = some 0xB ∧ 64 ≤ b.length ∧ port ≠ 319 ∧
            ∃ ds, rdDataset b = some ds ∧
              (g.haveMaster = false ∨ datasetCmp ds g.master < 0))) := by
  constructor
  · intro hunusable
    refine ⟨⟨g, c, []⟩, ?_, rfl, rfl⟩
    rw [ptpCoreRx_eq, rxKind_of_unusable hunusable]
  · intro hforeign
    have hnot : ¬ IsMaster g b := by
      rintro ⟨hmaster, hsource⟩
      rcases hforeign with hnone | hother
      · rw [hmaster] at hnone
        cases hnone
      · exact hother hsource
    rcases rxKind_of_foreign hnot port with hkind | hkind
    · refine ⟨⟨g, c, []⟩, ?_, fun hchanged => absurd ⟨rfl, rfl⟩ hchanged⟩
      rw [ptpCoreRx_eq, hkind]
    · obtain ⟨out, hout, heffect⟩ := handleAnnounce_effect b g c
      refine ⟨out, by rw [ptpCoreRx_eq, hkind]; exact hout, fun hchanged => ?_⟩
      obtain ⟨_, hport, htype⟩ := rxKind_announce.mp hkind
      cases heffect with
      | short => exact absurd ⟨rfl, rfl⟩ hchanged
      | refreshed _ hds hmaster hsame =>
        -- a refresh is from the master's own port
        exact absurd ⟨hmaster, hsame ▸ sourcePort_of_rdDataset hds⟩ hnot
      | selected hlen hds hbetter => exact ⟨htype, hlen, hport, _, hds, hbetter⟩
      | worse => exact absurd ⟨rfl, rfl⟩ hchanged

/-! ### The order of datasets -/

/-- The result of a C comparison. -/
def Ordering.toC : Ordering → Int
  | .lt => -1
  | .eq => 0
  | .gt => 1

theorem Ordering.toC_then (x y : Ordering) :
    Ordering.toC (x.then y) = if Ordering.toC x ≠ 0 then Ordering.toC x else Ordering.toC y := by
  cases x <;> simp [Ordering.toC, Ordering.then]

theorem Ordering.toC_neg : Ordering.toC x < 0 ↔ x = .lt := by
  cases x <;> simp [Ordering.toC]

theorem Ordering.toC_eq_zero : Ordering.toC x = 0 ↔ x = .eq := by
  cases x <;> simp [Ordering.toC]

/-- The numbers a comparison of datasets goes through, in its order. -/
def Dataset.key (d : Dataset) : List Nat :=
  [d.prio1.toNat, d.clkClass.toNat, d.clkAccuracy.toNat, d.variance.toNat, d.prio2.toNat] ++
    d.gmId.toList.map UInt8.toNat ++ [d.stepsRemoved.toNat] ++ d.portId.toList.map UInt8.toNat

theorem Dataset.key_inj {b : Dataset} : a.key = b.key ↔ a = b := by
  constructor
  · intro h
    have hmap : Function.Injective UInt8.toNat := fun _ _ => UInt8.toNat_inj.mp
    obtain ⟨p1, cc, ca, p2, va, sr, gm, po⟩ := a
    obtain ⟨p1', cc', ca', p2', va', sr', gm', po'⟩ := b
    simp only [key, List.append_assoc] at h
    obtain ⟨hhead, h⟩ := List.append_inj h (by simp)
    obtain ⟨hgm, h⟩ := List.append_inj h (by simp)
    obtain ⟨hsteps, hport⟩ := List.append_inj h (by simp)
    have hgm' := Vector.toList_inj.mp (List.map_injective_iff.mpr hmap hgm)
    have hport' := Vector.toList_inj.mp (List.map_injective_iff.mpr hmap hport)
    simp only [List.cons.injEq, UInt8.toNat_inj, UInt16.toNat_inj, and_true] at hhead hsteps
    obtain ⟨h₁, h₂, h₃, h₄, h₅⟩ := hhead
    rw [h₁, h₂, h₃, h₄, h₅, hsteps, hgm', hport']
  · rintro rfl
    rfl

/-- One comparison of the C code and what follows it. -/
theorem cmpNum_eq (m n : Nat) (rest : Ordering) :
    (if m ≠ n then (if m < n then -1 else 1) else Ordering.toC rest) =
      Ordering.toC ((compare m n).then rest) := by
  rcases Nat.lt_trichotomy m n with hlt | heq | hgt
  · rw [Nat.compare_eq_lt.mpr hlt, if_pos (Nat.ne_of_lt hlt), if_pos hlt]
    rfl
  · rw [Nat.compare_eq_eq.mpr heq, if_neg (not_not.mpr heq)]
    rfl
  · rw [Nat.compare_eq_gt.mpr hgt, if_pos (Nat.ne_of_gt hgt), if_neg (Nat.lt_asymm hgt)]
    rfl

theorem compare_append {xs ys : List Nat} (hlen : xs.length = ys.length) (as bs : List Nat) :
    compare (xs ++ as) (ys ++ bs) = (compare xs ys).then (compare as bs) := by
  induction xs generalizing ys with
  | nil =>
    rw [List.eq_nil_of_length_eq_zero hlen.symm]
    rfl
  | cons x xs ih =>
    cases ys with
    | nil => cases hlen
    | cons y ys =>
      rw [List.cons_append, List.cons_append, List.compare_cons_cons, List.compare_cons_cons,
        ih (by simpa using hlen), Ordering.then_assoc]

/-- Byte strings of one length compare as lists of numbers do. -/
theorem cmpBytes_eq {a : Bytes} (hlen : a.length = b.length) :
    cmpBytes a b = Ordering.toC (compare (a.map UInt8.toNat) (b.map UInt8.toNat)) := by
  induction a generalizing b with
  | nil =>
    rw [List.eq_nil_of_length_eq_zero hlen.symm]
    rfl
  | cons x xs ih =>
    cases b with
    | nil => cases hlen
    | cons y ys =>
      rw [List.map_cons, List.map_cons, List.compare_cons_cons, ← cmpNum_eq, cmpBytes,
        ih (by simpa using hlen)]
      simp only [ne_eq, UInt8.toNat_inj, UInt8.lt_iff_toNat_lt]

/-- `dataset_cmp` is the lexicographic order of the keys. -/
theorem datasetCmp_eq (a b : Dataset) :
    datasetCmp a b = Ordering.toC (compare a.key b.key) := by
  have hgm : a.gmId.toList.length = b.gmId.toList.length := by simp
  have hport : a.portId.toList.length = b.portId.toList.length := by simp
  have hkeys : (a.gmId.toList.map UInt8.toNat).length = (b.gmId.toList.map UInt8.toNat).length := by
    simp
  simp only [Dataset.key, List.append_assoc, List.cons_append, List.nil_append,
    List.compare_cons_cons, compare_append hkeys]
  rw [← cmpNum_eq, ← cmpNum_eq, ← cmpNum_eq, ← cmpNum_eq, ← cmpNum_eq, Ordering.toC_then,
    ← cmpNum_eq, ← cmpBytes_eq hgm, ← cmpBytes_eq hport]
  simp only [datasetCmp, ne_eq, UInt8.toNat_inj, UInt16.toNat_inj, UInt8.lt_iff_toNat_lt,
    UInt16.lt_iff_toNat_lt]

theorem datasetCmp_neg {b : Dataset} : datasetCmp a b < 0 ↔ compare a.key b.key = .lt := by
  rw [datasetCmp_eq, Ordering.toC_neg]

theorem datasetCmp_eq_zero {b : Dataset} : datasetCmp a b = 0 ↔ a = b := by
  rw [datasetCmp_eq, Ordering.toC_eq_zero, Std.LawfulEqOrd.compare_eq_iff_eq, Dataset.key_inj]

theorem datasetCmp_swap (a b : Dataset) : datasetCmp b a = -datasetCmp a b := by
  rw [datasetCmp_eq, datasetCmp_eq, Std.OrientedOrd.eq_swap (a := b.key)]
  cases compare a.key b.key <;> rfl

theorem datasetCmp_trans {b : Dataset} (hab : datasetCmp a b < 0) (hbc : datasetCmp b c < 0) :
    datasetCmp a c < 0 := by
  rw [datasetCmp_neg] at hab hbc ⊢
  exact Std.TransCmp.lt_trans hab hbc

/-- `a` is the better one of two different ones, or they are the same. -/
theorem datasetCmp_le_trans {b : Dataset} (hab : datasetCmp a b < 0) (hbc : datasetCmp b c ≤ 0) :
    datasetCmp a c ≤ 0 := by
  rcases Int.lt_or_eq_of_le hbc with hlt | heq
  · exact Int.le_of_lt (datasetCmp_trans hab hlt)
  · rw [← datasetCmp_eq_zero.mp heq]
    exact Int.le_of_lt hab

/-! ### The least announcer is selected -/

/-- An Announce of `ds` that reaches its handler with its full length. -/
def AnnounceOf (g : PtpCore) (ds : Dataset) : PtpCall → Prop
  | .rx _ b port _ =>
      rxKind g b port = .announce ∧ announceLenMin ≤ b.length ∧ rdDataset b = some ds
  | .poll .. => False

instance (g : PtpCore) (ds : Dataset) : ∀ call, Decidable (AnnounceOf g ds call)
  | .rx .. => inferInstanceAs (Decidable (_ ∧ _))
  | .poll .. => inferInstanceAs (Decidable False)

/-- No poll finds the master silent for too long. -/
def NoTimeout (s : PtpState) : PtpCall → Prop
  | .poll _ _ nowMs =>
      ¬ (s.core.haveMaster = true ∧ nowMs - s.core.lastAnnounceMs > s.core.announceTimeoutMs)
  | .rx .. => True

instance (s : PtpState) : ∀ call, Decidable (NoTimeout s call)
  | .poll .. => inferInstanceAs (Decidable (¬ _))
  | .rx .. => inferInstanceAs (Decidable True)

/-- Who we are and whom we follow. -/
structure SameMaster (g g' : PtpCore) : Prop where
  self : g'.self = g.self
  selfId : g'.selfId = g.selfId
  haveMaster : g'.haveMaster = g.haveMaster
  master : g'.master = g.master

theorem sendDelayReq_sameMaster {sent : Option UInt64} {c : PtpClock}
    (h : sendDelayReq o freq now sent g c = some out) : SameMaster g out.core := by
  simp only [sendDelayReq, Option.bind_eq_bind, Option.bind_eq_some_iff] at h
  obtain ⟨ns, _, origin, _, g', hg', heq⟩ := h
  cases heq
  cases hsent : (if g.tx then sent else none) with
  | none =>
    rw [hsent] at hg'
    cases hg'
    exact ⟨rfl, rfl, rfl, rfl⟩
  | some txCnt =>
    rw [hsent] at hg'
    obtain ⟨t3, _, heq⟩ := Option.bind_eq_some_iff.mp hg'
    cases heq
    exact ⟨rfl, rfl, rfl, rfl⟩

theorem ptpCorePoll_sameMaster {sent : Option UInt64} {c : PtpClock}
    (hlive : ¬ (g.haveMaster = true ∧ nowMs - g.lastAnnounceMs > g.announceTimeoutMs))
    (h : ptpCorePoll o freq now sent nowMs g c = some out) : SameMaster g out.core := by
  simp only [ptpCorePoll, if_neg hlive] at h
  split at h
  · obtain ⟨hself, hid, hhave, hmaster⟩ := sendDelayReq_sameMaster h
    exact ⟨hself, hid, hhave, hmaster⟩
  · cases h
    exact ⟨rfl, rfl, rfl, rfl⟩

/-- `g₀` has become `g` by the Announces in `calls` of datasets in `D`. -/
structure Chosen (g₀ : PtpCore) (D : List Dataset) (calls : List PtpCall) (g : PtpCore) : Prop where
  self : g.self = g₀.self
  selfId : g.selfId = g₀.selfId
  mem : g.haveMaster = true → g.master ∈ D
  least : ∀ ds ∈ D, (∃ call ∈ calls, AnnounceOf g₀ ds call) →
    g.haveMaster = true ∧ datasetCmp g.master ds ≤ 0

theorem rxKind_congr (hself : g'.self = g.self) (hid : g'.selfId = g.selfId) :
    rxKind g' b port = .announce ↔ rxKind g b port = .announce := by
  rw [rxKind_announce, rxKind_announce, Unusable, Unusable, hself, hid]

variable {calls : List PtpCall}

theorem Chosen.poll (h : Chosen g₀ D calls g) (hsame : SameMaster g g') {sent : Option UInt64} :
    Chosen g₀ D (calls ++ [.poll now sent nowMs]) g' := by
  refine ⟨hsame.self.trans h.self, hsame.selfId.trans h.selfId, ?_, ?_⟩
  · rw [hsame.haveMaster, hsame.master]
    exact h.mem
  · rintro ds hds ⟨call, hcall, hannounce⟩
    rw [hsame.haveMaster, hsame.master]
    rcases List.mem_append.mp hcall with hold | hnew
    · exact h.least ds hds ⟨call, hold, hannounce⟩
    · rw [List.mem_singleton.mp hnew] at hannounce
      exact hannounce.elim

/-- One more Announce.  The master after it is not worse than the announcer, and
    not worse than the master before it. -/
theorem Chosen.announce (h : Chosen g₀ D calls g) (hcall : AnnounceOf g₀ ds call)
    (hself : g'.self = g.self) (hid : g'.selfId = g.selfId) (hhave : g'.haveMaster = true)
    (hmem : g'.master ∈ D) (hnew : datasetCmp g'.master ds ≤ 0)
    (hold : g.haveMaster = true → ∀ d, datasetCmp g.master d ≤ 0 → datasetCmp g'.master d ≤ 0) :
    Chosen g₀ D (calls ++ [call]) g' := by
  refine ⟨hself.trans h.self, hid.trans h.selfId, fun _ => hmem, ?_⟩
  rintro d hd ⟨call', hcall', hannounce⟩
  refine ⟨hhave, ?_⟩
  rcases List.mem_append.mp hcall' with hmem' | hmem'
  · obtain ⟨hmaster, hle⟩ := h.least d hd ⟨call', hmem', hannounce⟩
    exact hold hmaster d hle
  · -- a message carries one dataset
    rw [List.mem_singleton.mp hmem'] at hannounce
    cases call with
    | rx cnt b port rxCnt =>
      have heq : some d = some ds := hannounce.2.2.symm.trans hcall.2.2
      cases heq
      exact hnew
    | poll => exact hcall.elim

theorem chosen_step {core : PtpCore} {clock : PtpClock} {s s' : PtpState}
    (hports : ∀ d ∈ D, ∀ d' ∈ D, d.portId = d'.portId → d = d')
    (hcall : (∃ ds ∈ D, AnnounceOf g₀ ds call) ∨ ∃ now sent nowMs, call = .poll now sent nowMs)
    (h : Chosen g₀ D calls s.core)
    (hstep : ((ptpEngine o freq core clock).restrict NoTimeout).Step s call s') :
    Chosen g₀ D (calls ++ [call]) s'.core := by
  obtain ⟨⟨_, hexec⟩, hlive⟩ := Machine.restrict_step.mp hstep
  obtain ⟨out, hout, rfl⟩ := Option.map_eq_some_iff.mp hexec
  rcases hcall with ⟨ds, hds, hannounce⟩ | ⟨now, sent, nowMs, rfl⟩
  · cases call with
    | poll => exact hannounce.elim
    | rx cnt b port rxCnt =>
      have hkind := (rxKind_congr h.self h.selfId).mpr hannounce.1
      obtain ⟨out', hout', heffect⟩ := handleAnnounce_effect b s.core s.clock
      have heq : out = out' := by
        rw [PtpCall.run, ptpCoreRx_eq, hkind] at hout
        exact Option.some.inj (hout.symm.trans hout')
      subst heq
      cases heffect with
      | short hlen => exact absurd hannounce.2.1 (Nat.not_le.mpr hlen)
      | refreshed _ hds' hmaster hport hsame =>
        obtain ⟨_, _, _, _, rfl⟩ := hsame.eq
        cases hannounce.2.2.symm.trans hds'
        have hsame := hports _ hds _ (h.mem hmaster) hport
        refine h.announce hannounce rfl rfl hmaster hds (datasetCmp_eq_zero.mpr rfl).le ?_
        intro _ d hd
        rwa [← hsame] at hd
      | selected _ hds' hbetter hsame =>
        obtain ⟨_, _, _, _, rfl⟩ := hsame.eq
        cases hannounce.2.2.symm.trans hds'
        refine h.announce hannounce rfl rfl rfl hds (datasetCmp_eq_zero.mpr rfl).le ?_
        intro hmaster d hd
        rcases hbetter with hnone | hless
        · rw [hmaster] at hnone
          cases hnone
        · exact datasetCmp_le_trans hless hd
      | worse _ hds' hmaster _ hworse =>
        cases hannounce.2.2.symm.trans hds'
        refine h.announce hannounce rfl rfl hmaster (h.mem hmaster) ?_ fun _ d hd => hd
        show datasetCmp s.core.master ds ≤ 0
        have hswap := datasetCmp_swap ds s.core.master
        omega
  · exact h.poll (ptpCorePoll_sameMaster hlive hout)

/-- **Master selection.**  `dataset_cmp` is a strict total order.  An Announce is
    always handled, and however often and in whatever order the datasets `D` of
    different ports are announced to an engine without a master, the one selected
    is the least of them. -/
theorem selected_master_least (o : Overflow) (freq : UInt64) (core : PtpCore) (clock : PtpClock) :
    (∀ a b, datasetCmp b a = -datasetCmp a b) ∧
    (∀ a b c, datasetCmp a b < 0 → datasetCmp b c < 0 → datasetCmp a c < 0) ∧
    (∀ a b, datasetCmp a b = 0 ↔ a = b) ∧
    (∀ s : PtpState, ∀ ds call, AnnounceOf s.core ds call →
      ∃ s', (ptpEngine o freq core clock).Step s call s') ∧
    ∀ (s s' : PtpState) (D : List Dataset) (calls : List PtpCall),
      s.core.haveMaster = false →
      (∀ d ∈ D, ∀ d' ∈ D, d.portId = d'.portId → d = d') →
      (∀ call ∈ calls, (∃ ds ∈ D, AnnounceOf s.core ds call) ∨
        ∃ now sent nowMs, call = .poll now sent nowMs) →
      D ≠ [] → (∀ ds ∈ D, ∃ call ∈ calls, AnnounceOf s.core ds call) →
      ((ptpEngine o freq core clock).restrict NoTimeout).Run s calls s' →
      s'.core.haveMaster = true ∧ s'.core.master ∈ D ∧
        ∀ d ∈ D, d ≠ s'.core.master → datasetCmp s'.core.master d < 0 := by
  refine ⟨datasetCmp_swap, fun a b c => datasetCmp_trans, fun a b => datasetCmp_eq_zero, ?_, ?_⟩
  · intro s ds call hannounce
    cases call with
    | poll => exact hannounce.elim
    | rx cnt b port rxCnt =>
      obtain ⟨out, hout, _⟩ := handleAnnounce_effect b s.core s.clock
      refine ⟨⟨out.core, out.clock, out.events ++ s.log⟩, trivial, ?_⟩
      simp only [ptpEngine, PtpCall.run, ptpCoreRx_eq, hannounce.1, hout, Option.map_some]
  · intro s s' D calls hnone hports hcalls hne hall hrun
    have hchosen : Chosen s.core D calls s'.core := by
      clear hall
      induction hrun with
      | refl =>
        refine ⟨rfl, rfl, fun hmaster => ?_, ?_⟩
        · rw [hnone] at hmaster
          cases hmaster
        · rintro ds _ ⟨call, hcall, _⟩
          cases hcall
      | tail _ hstep ih =>
        refine chosen_step hports (hcalls _ (by simp)) (ih fun call hcall => ?_) hstep
        exact hcalls call (by simp [hcall])
    obtain ⟨d₀, hd₀⟩ := List.exists_mem_of_ne_nil D hne
    obtain ⟨hhave, _⟩ := hchosen.least d₀ hd₀ (hall d₀ hd₀)
    refine ⟨hhave, hchosen.mem hhave, fun d hd hdne => ?_⟩
    obtain ⟨_, hle⟩ := hchosen.least d hd (hall d hd)
    refine lt_of_le_of_ne hle fun hzero => hdne ?_
    exact (datasetCmp_eq_zero.mp hzero).symm

/-- A message of `len` zero bytes but for its type, the version, the first byte of
    its sender and its sequence id. -/
def plainMsg (type sender seq : UInt8) (len : Nat) : Bytes :=
  ((((List.replicate len 0).set 0 type).set 1 2).set 20 sender).set 31 seq

/-- An engine as `ptp_core_init` leaves it. -/
def plainCore : PtpCore := ptpCoreInit (Vector.replicate 6 0) 0 true

/-- The dataset of a plain Announce with priority `prio1`. -/
def plainDataset (sender prio1 : UInt8) : Dataset :=
  ⟨prio1, 0, 0, 0, 0, 0, Vector.replicate 8 0, #v[sender, 0, 0, 0, 0, 0, 0, 0, 0, 0]⟩

def plainAnnounce (sender prio1 : UInt8) : PtpCall :=
  .rx ⟨0, 0, 0⟩ ((plainMsg 0xB sender 0 64).set 47 prio1) 320 0

/-- Of two announcers the one with the smaller priority value is selected, though
    the other comes first and again at the end. -/
theorem selected_master_least_two :
    ∃ s', ((ptpEngine .trap 1 plainCore ⟨0, 0, 0, 0⟩).restrict NoTimeout).Run
        ⟨plainCore, ⟨0, 0, 0, 0⟩, []⟩
        [plainAnnounce 1 5, plainAnnounce 2 3, .poll 0 none 100, plainAnnounce 1 5] s' ∧
      datasetCmp s'.core.master (plainDataset 1 5) < 0 := by
  obtain ⟨s', hrun, hmaster⟩ :=
    ((ptpEngine .trap 1 plainCore ⟨0, 0, 0, 0⟩).restrict NoTimeout).exists_run
      [plainAnnounce 1 5, plainAnnounce 2 3, .poll 0 none 100, plainAnnounce 1 5]
      (fun s => s.core.master = plainDataset 2 3) (by decide +kernel)
  refine ⟨s', hrun, ?_⟩
  have hleast := (selected_master_least .trap 1 plainCore ⟨0, 0, 0, 0⟩).2.2.2.2
    ⟨plainCore, ⟨0, 0, 0, 0⟩, []⟩ s' [plainDataset 1 5, plainDataset 2 3] _ rfl (by decide +kernel)
    ?_ (by simp) (by decide +kernel) hrun
  · refine hleast.2.2 (plainDataset 1 5) (by simp) ?_
    rw [of_decide_eq_true hmaster]
    decide +kernel
  · intro call hcall
    simp only [List.mem_cons, List.not_mem_nil, or_false] at hcall
    rcases hcall with rfl | rfl | rfl | rfl
    · exact Or.inl ⟨plainDataset 1 5, by simp, by decide +kernel⟩
    · exact Or.inl ⟨plainDataset 2 3, by simp, by decide +kernel⟩
    · exact Or.inr ⟨_, _, _, rfl⟩
    · exact Or.inl ⟨plainDataset 1 5, by simp, by decide +kernel⟩

end FlintRTOS
