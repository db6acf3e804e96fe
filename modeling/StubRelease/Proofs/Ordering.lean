/-
# StubRelease.Proofs.Ordering -- the order of a batch

Releases of different versions commute. What one of them alters no other looks at: the working directories, the
archives and the directories of the versions are all different, and the output directories are made only once. So two
releases in a row can be made in the other order and leave the same tree (`Layout.Leads.swap`), hence a whole list of
them in any order (`LeadsThrough.perm`), and what is packed afterwards unpacks to the same trees, in whatever order
directories are listed. Main statement: with the imitated tools and without a configuration file the order of the
versions decides neither whether a batch succeeds nor what it leaves (`batch_order_is_immaterial`).
-/
import StubRelease.Proofs.Releasable

namespace StubRelease

open Sequence Node

/-! ## What different versions alter -/

namespace Layout

variable {l m : Layout} {d p : List Name} {base s t u : Store}

/-- A release alters its working directory, its archive, and what is at or below its version's directory. -/
theorem MayAlter.cases (h : l.MayAlter d .release p) :
    l.workAt d <+: p ∨ p = l.archiveAt d ∨ l.versionAt d <+: p := by
  rcases h with hwork | harchive | rfl | hdist
  · exact .inl hwork
  · exact .inr (.inl harchive)
  · exact .inr (.inr List.prefix_rfl)
  · exact .inr (.inr (versionAt_isPrefix_distAt.trans hdist))

/-- Different versions alter different places. -/
theorem MayAlter.apart (hne : m.version ≠ l.version) (h : m.MayAlter d .release p) : ¬ l.MayAlter d .release p := by
  intro h'
  rcases h.cases with hwork | rfl | hversion
  · rcases h'.cases with hwork' | rfl | hversion'
    · exact hne (work_injective (entry_isPrefix_inj hwork hwork'))
    · exact not_workAt_of_rawModulesAt rawModulesAt_isPrefix_archiveAt hwork
    · exact not_workAt_of_releaseAt (releaseAt_isPrefix_versionAt.trans hversion') hwork
  · exact h'.not_archiveAt hne
  · rcases h'.cases with hwork' | rfl | hversion'
    · exact not_workAt_of_releaseAt (releaseAt_isPrefix_versionAt.trans hversion) hwork'
    · exact archiveAt_ne_of_releaseAt (releaseAt_isPrefix_versionAt.trans hversion) rfl
    · exact hne (Version.text_injective (Bytes.ofString_injective (entry_isPrefix_inj hversion hversion')))

/-! ## What a release leaves to the others -/

/-- A store that has kept the directories of a checkout is one for another version, where nothing stands in its way. -/
theorem Site.other (hsite : l.Site d base) (hroot : m.root = l.root) (hplain : t.top.Plain) (hcwd : t.cwd = base.cwd)
    (hkeeps : base.top.KeepsDirs t.top)
    (hfits : (m.root / ("tmp-" ++ m.version.text)).bytes.length < Route.lengthLimit)
    (hfree : t.top.look (m.workAt d) = none) : m.Site d t where
  plain := hplain
  finds := by
    refine ⟨?_, ?_, hfits⟩
    · rw [hroot]
      exact hsite.reaches hkeeps hcwd
    · rw [hroot]
      exact hsite.finds.no_nul
  free := hfree
  rawModules := hkeeps _ hsite.rawModules
  release := hkeeps _ hsite.release

namespace Released

variable (hsite : l.Site d base) (hready : l.Releasable d base) (h : l.Released d base t)

include hsite hready h

/-- No directory goes. -/
theorem keepsDirs : base.top.KeepsDirs t.top := by
  intro p hp
  by_cases hat : l.MayAlter d .release p
  · rcases hat with hwork | rfl | rfl | ⟨rest, rfl⟩
    · exact absurd hwork (hsite.not_isPrefix (by simp [hp]))
    · exact absurd hp hready.archive
    · exact h.version
    · -- nothing stood where the distributions came
      have hnone : base.top.look (l.distAt d ++ rest) = none := by
        cases rest with
        | nil => rw [List.append_nil, hready.free]
        | cons first rest => exact look_below_of_not_dir (by simp [hready.free]) first rest
      rw [hnone] at hp
      cases hp
  · rw [h.look p hat, hp]

/-- Where nothing stands in its way another release finds its checkout afterwards. -/
theorem site_of_free (hroot : m.root = l.root)
    (hfits : (m.root / ("tmp-" ++ m.version.text)).bytes.length < Route.lengthLimit)
    (hfree : t.top.look (m.workAt d) = none) : m.Site d t :=
  hsite.other hroot h.plain h.cwd (h.keepsDirs hsite hready) hfits hfree

/-- Its own working directory is gone, so that making the output directories again does nothing. -/
theorem makesOutputDirs : l.MakesOutputDirs t t := by
  have hfree := h.cleared []
  rw [List.append_nil] at hfree
  exact (h.site_of_free hsite hready rfl hsite.finds.fits hfree).makesOutputDirs hready.fits

end Released

/-- What another version needs and alters stands as it did. -/
theorem Released.look_other (h : l.Released d base t) (hne : m.version ≠ l.version)
    (hp : m.MayAlter d .release p ∨ ¬ Below d outputNames p) : t.top.look p = base.top.look p := by
  refine h.look p ?_
  rcases hp with hother | hinput
  · exact hother.apart hne
  · exact fun hat => hinput hat.below

/-- Everything is ready for a release wherever the same stands at what it needs and alters. -/
theorem Releasable.of_look (h : m.Releasable d s)
    (hlook : ∀ p, m.MayAlter d .release p ∨ ¬ Below d outputNames p → t.top.look p = s.top.look p) :
    m.Releasable d t where
  fits := h.fits
  room := h.room
  short := h.short
  inputs := h.inputs.of_look fun p hp => hlook p (.inr hp)
  archive := by
    rw [hlook _ (.inl mayAlter_archive)]
    exact h.archive
  version := by
    rw [hlook _ (.inl mayAlter_version)]
    exact h.version
  free := by
    have hdist : m.MayAlter d .release (m.distAt d) := .inr (.inr (.inr List.prefix_rfl))
    rw [hlook _ (.inl hdist), h.free]

/-! ## Two releases -/

/-- A release with the standard settings and the imitated tools leads from one store to another one. -/
def Leads (l : Layout) (s t : Store) : Prop :=
  ∃ base, l.MakesOutputDirs s base ∧ l.Site (s.spelled l.root) base ∧ l.Releasable (s.spelled l.root) base ∧
    l.Released (s.spelled l.root) base t

/-- A release may be judged at the place where its root is. -/
theorem leads_iff (hplace : s.spelled l.root = d) : l.Leads s t ↔
    ∃ base, l.MakesOutputDirs s base ∧ l.Site d base ∧ l.Releasable d base ∧ l.Released d base t := by
  subst hplace
  rfl

theorem Leads.plain (h : l.Leads s t) : t.top.Plain := by
  obtain ⟨base, -, -, -, hreleased⟩ := h
  exact hreleased.plain

theorem Leads.cwd (h : l.Leads s t) (hs : s.top.Plain) : t.cwd = s.cwd := by
  obtain ⟨base, hmakes, -, -, hreleased⟩ := h
  exact hreleased.cwd.trans (hmakes.grows hs).2

/-- A release can be made wherever everything is ready for it. -/
theorem Releasable.released (hsite : l.Site d base) (h : l.Releasable d base) : ∃ t, l.Released d base t := by
  obtain ⟨v, -, hreleased⟩ := Job.buildAndPublish_of_releasable
    (j := ⟨Imitation.executor none .ascending, Config.standard.resolvedAgainst l.root, l, l.root, l.root, true⟩)
    (u := .start (l.entered d base) [] ⟨none, []⟩ false) rfl rfl hsite rfl h
  exact ⟨v.store, hreleased⟩

/-- What is left is what a release leaves of any checkout that looks like it where the release alters nothing. -/
theorem Released.of_look {other : Store} (h : l.Released d base t) (hplain : u.top.Plain) (hcwd : u.cwd = other.cwd)
    (hat : ∀ p, l.MayAlter d .release p → u.top.look p = t.top.look p)
    (hoff : ∀ p, ¬ l.MayAlter d .release p → u.top.look p = other.top.look p) : l.Released d other u where
  plain := hplain
  cwd := hcwd
  archive := by rw [hat _ mayAlter_archive, h.archive]
  version := by rw [hat _ mayAlter_version, h.version]
  dist rest := by rw [hat _ (mayAlter_dist rest), h.dist]
  cleared rest := by rw [hat _ (.inl (List.prefix_append _ _)), h.cleared]
  look := hoff

theorem MakesOutputDirs.congr (hroot : m.root = l.root) (h : l.MakesOutputDirs s t) : m.MakesOutputDirs s t := by
  rwa [MakesOutputDirs, rawModulesDir, releaseDir, hroot]

/-- Releases of two versions can be made in the other order, and come to the same tree. -/
theorem Leads.swap (hroot : m.root = l.root) (hne : m.version ≠ l.version) (hs : s.top.Plain) (h : l.Leads s t)
    (h' : m.Leads t u) : ∃ t', m.Leads s t' ∧ l.Leads t' u := by
  obtain ⟨d, hplace⟩ : ∃ d, s.spelled l.root = d := ⟨_, rfl⟩
  have hspelled {x : Store} (hcwd : x.cwd = s.cwd) : x.spelled l.root = d := by
    rw [Store.spelled_congr hcwd, hplace]
  have hspelled' {x : Store} (hcwd : x.cwd = s.cwd) : x.spelled m.root = d := by
    rw [hroot, hspelled hcwd]
  have hcwd := h.cwd hs
  obtain ⟨base, hmakes, hsite, hready, hreleased⟩ := (leads_iff hplace).1 h
  obtain ⟨base', hmakes', hsite', hready', hreleased'⟩ := (leads_iff (hspelled' hcwd)).1 h'
  -- the second release makes no directories any more
  obtain rfl := hmakes'.unique ((hreleased.makesOutputDirs hsite hready).congr hroot)
  -- it could have been made before
  have hfreeM : base.top.look (m.workAt d) = none := by
    rw [← hreleased.look_other hne (.inl mayAlter_work), hsite'.free]
  have hsiteM : m.Site d base := hsite.other hroot hsite.plain rfl (.refl _) hsite'.finds.fits hfreeM
  have hreadyM : m.Releasable d base := hready'.of_look fun p hp => (hreleased.look_other hne hp).symm
  obtain ⟨t', hreleasedM⟩ := hreadyM.released hsiteM
  -- and the first one after it
  have hfreeL : t'.top.look (l.workAt d) = none := by
    rw [hreleasedM.look_other hne.symm (.inl mayAlter_work), hsite.free]
  have hsiteL := hreleasedM.site_of_free hsiteM hreadyM hroot.symm hsite.finds.fits hfreeL
  have hreadyL : l.Releasable d t' := hready.of_look fun p hp => hreleasedM.look_other hne.symm hp
  have hreleasedL : l.Released d t' u := by
    apply hreleased.of_look hreleased'.plain
    · rw [hreleased'.cwd, hreleased.cwd, hreleasedM.cwd]
    · intro p hp
      exact hreleased'.look_other hne.symm (.inl hp)
    · intro p hp
      by_cases hother : m.MayAlter d .release p
      · exact hreleased'.look_altered hreleasedM hother
      · rw [hreleased'.look p hother, hreleased.look p hp, hreleasedM.look p hother]
  have hcwd' : t'.cwd = s.cwd := hreleasedM.cwd.trans (hmakes.grows hs).2
  have hmakesL := (hreleasedM.makesOutputDirs hsiteM hreadyM).congr hroot.symm
  exact ⟨t', (leads_iff (hspelled' rfl)).2 ⟨base, hmakes.congr hroot, hsiteM, hreadyM, hreleasedM⟩,
    (leads_iff (hspelled hcwd')).2 ⟨t', hmakesL, hsiteL, hreadyL, hreleasedL⟩⟩

end Layout

/-! ## Runs -/

/-- No configuration file is at a root. -/
def Store.Unconfigured (s : Store) (root : Path) : Prop := ∀ content executable,
  s.top.look (s.spelled root ++ [Bytes.ofString Config.fileName]) ≠ some (.file content executable)

theorem Layout.Leads.unconfigured {l : Layout} {s t : Store} (h : l.Leads s t) (hs : s.top.Plain)
    (hconfig : s.Unconfigured l.root) : t.Unconfigured l.root := by
  intro content executable hfile
  have hcwd := h.cwd hs
  obtain ⟨base, hmakes, -, -, hreleased⟩ := h
  have hapart : ¬ l.MayAlter (s.spelled l.root) .release (s.spelled l.root ++ [Bytes.ofString Config.fileName]) :=
    fun hat => Below.not_of_entry (by decide) List.prefix_rfl hat.below
  rw [Store.spelled_congr hcwd, hreleased.look _ hapart] at hfile
  rcases (hmakes.grows hs).1.look (s.spelled l.root ++ [Bytes.ofString Config.fileName]) with heq | ⟨-, hdir⟩
  · exact hconfig content executable (heq ▸ hfile)
  · rw [hfile] at hdir
    cases hdir

/-- What a release delivers: its archive and its distributions. -/
def Layout.delivered (l : Layout) : Outcome := ⟨l.archivePath, some (l.versionReleaseDir / Layout.distName)⟩

section Runs

variable {root : Path} {label : Label} {u : Session (List Call)} {t : Store} (hs : u.store.top.Plain)
  (hconfig : u.store.Unconfigured root)

include hs hconfig

/-- Without a configuration file a release is made where it leads somewhere, and there it ends. -/
theorem package_eq_ok_iff_leads (order : Listing.Order) {r : Request} (hmode : r.mode = .release) {outcome : Outcome} :
    (∃ v, package (Imitation.executor none order) r root label u = (.ok outcome, v) ∧ v.store = t) ↔
      outcome = Layout.delivered ⟨root, r.version, label⟩ ∧ Layout.Leads ⟨root, r.version, label⟩ u.store t := by
  have hstandard : Config.load u.store root = .ok (Config.standard.resolvedAgainst root) :=
    Config.load_of_no_file hs.linkFree hconfig
  obtain ⟨j, hj⟩ : ∃ j : Job (List Call), j = ⟨Imitation.executor none order, Config.standard.resolvedAgainst root,
    ⟨root, r.version, label⟩, r.sourceDir, r.blenderDir, r.quiet⟩ := ⟨_, rfl⟩
  have hexecutor : j.executor = Imitation.executor none order := by rw [hj]
  have hlayout : j.layout = ⟨root, r.version, label⟩ := by rw [hj]
  have hsettings : j.config = Config.standard.resolvedAgainst j.layout.root := by rw [hj]
  rw [Job.package_release_eq _ hmode, ← hlayout]
  constructor
  · rintro ⟨v, hrun, rfl⟩
    obtain ⟨j', w, hprepared, hbuilt⟩ := bind_eq_ok.1 hrun
    obtain ⟨failure, w', hfailed, -⟩ | ⟨config, base, d, w', hload, hdone, -, hbegun⟩ :=
      Job.prepare_cases (Imitation.executor none order) r root label hs
    · cases (outcome_inj.1 (hprepared.symm.trans hfailed)).1
    obtain ⟨hsame, rfl⟩ := outcome_inj.1 (hprepared.symm.trans hdone)
    obtain rfl := Except.ok.inj (hload.symm.trans hstandard)
    obtain rfl : j = j' := hj.trans (Except.ok.inj hsame).symm
    rw [← hlayout] at hbegun
    obtain rfl : d = u.store.spelled j.layout.root :=
      hbegun.site.spelled.symm.trans (Store.spelled_congr (hbegun.makes.grows hs).2 j.layout.root)
    have hready := Job.releasable_of_buildAndPublish hexecutor hsettings hbegun.site hbegun.store hbuilt
    obtain ⟨v', hmade, hreleased⟩ :=
      Job.buildAndPublish_of_releasable hexecutor hsettings hbegun.site hbegun.store hready
    obtain ⟨houtcome, rfl⟩ := outcome_inj.1 (hmade.symm.trans hbuilt)
    exact ⟨(Except.ok.inj houtcome).symm, base, hbegun.makes, hbegun.site, hready, hreleased⟩
  · rintro ⟨rfl, base, hmakes, hsite, hready, hreleased⟩
    have hbegin : Layout.Site ⟨root, r.version, label⟩ (u.store.spelled j.layout.root) base := hlayout ▸ hsite
    obtain ⟨w, hprepared, hentered⟩ :=
      hbegin.prepares (e := Imitation.executor none order) hs (hlayout ▸ hmakes) hstandard rfl
    rw [← hlayout] at hentered
    obtain ⟨v, hmade, hreleased'⟩ := Job.buildAndPublish_of_releasable hexecutor hsettings hsite hentered hready
    rw [← hj] at hprepared
    exact ⟨v, (bind_of_ok _ hprepared).trans hmade, hreleased'.unique hreleased⟩

end Runs

/-- Releases of a list of versions lead from one store to another one. -/
def LeadsThrough (root : Path) (label : Label) : List Version → Store → Store → Prop
  | [], s, t => s = t
  | v :: rest, s, t => ∃ u, Layout.Leads ⟨root, v, label⟩ s u ∧ LeadsThrough root label rest u t

section LeadsThrough

variable {root : Path} {label : Label} {versions : List Version} {s t : Store}

theorem LeadsThrough.plain (h : LeadsThrough root label versions s t) (hs : s.top.Plain) : t.top.Plain := by
  induction versions generalizing s with
  | nil => exact h ▸ hs
  | cons v rest ih =>
    obtain ⟨u, hfirst, hlater⟩ := h
    exact ih hlater hfirst.plain

theorem LeadsThrough.cwd (h : LeadsThrough root label versions s t) (hs : s.top.Plain) : t.cwd = s.cwd := by
  induction versions generalizing s with
  | nil => rw [show s = t from h]
  | cons v rest ih =>
    obtain ⟨u, hfirst, hlater⟩ := h
    exact (ih hlater hfirst.plain).trans (hfirst.cwd hs)

end LeadsThrough

/-- The order of the releases does not matter. -/
theorem LeadsThrough.perm {root : Path} {label : Label} {versions versions' : List Version} {s t : Store}
    (hperm : versions.Perm versions') (hnodup : versions.Nodup) (hs : s.top.Plain)
    (h : LeadsThrough root label versions s t) : LeadsThrough root label versions' s t := by
  -- on the permutation: two neighbours are swapped, and a release leads from plain trees to plain trees
  induction hperm generalizing s t with
  | nil => exact h
  | cons v hrest ih =>
    obtain ⟨u, hfirst, hlater⟩ := h
    exact ⟨u, hfirst, ih (List.nodup_cons.1 hnodup).2 hfirst.plain hlater⟩
  | swap v w rest =>
    obtain ⟨u, hfirst, u', hsecond, hlater⟩ := h
    have hne : v ≠ w := by
      rintro rfl
      obtain ⟨hnotMem, -⟩ := List.nodup_cons.1 hnodup
      exact hnotMem List.mem_cons_self
    obtain ⟨x, hsecond', hfirst'⟩ :=
      Layout.Leads.swap (l := ⟨root, w, label⟩) (m := ⟨root, v, label⟩) rfl hne hs hfirst hsecond
    exact ⟨x, hsecond', u', hfirst', hlater⟩
  | trans hperm _ ih ih' => exact ih' (hperm.nodup_iff.1 hnodup) hs (ih hnodup hs h)

/-- The releases of a batch are made where they lead somewhere, and there they end. -/
theorem releaseEach_iff_leadsThrough (order : Listing.Order) {b : Batch} {root : Path} {label : Label}
    {versions : List Version} {u : Session (List Call)} {t : Store} (hs : u.store.top.Plain)
    (hconfig : u.store.Unconfigured root) :
    (∃ v, releaseEach (Imitation.executor none order) b root label versions u = (.ok (), v) ∧ v.store = t) ↔
      LeadsThrough root label versions u.store t := by
  -- on the versions: the next one starts where this one ends, which is plain and has no configuration file either
  induction versions generalizing u with
  | nil =>
    constructor
    · rintro ⟨v, hrun, rfl⟩
      obtain ⟨-, rfl⟩ := outcome_inj.1 hrun
      rfl
    · rintro rfl
      exact ⟨u, rfl, rfl⟩
  | cons version rest ih =>
    have hfirst {outcome : Outcome} {x : Store} :
        (∃ v, package (Imitation.executor none order) (b.request version) root label u = (.ok outcome, v) ∧
          v.store = x) ↔ outcome = Layout.delivered ⟨root, version, label⟩ ∧
            Layout.Leads ⟨root, version, label⟩ u.store x :=
      package_eq_ok_iff_leads hs hconfig order rfl
    constructor
    · rintro ⟨v, hrun, hstore⟩
      obtain ⟨outcome, w, hpackage, hrest⟩ := bind_eq_ok.1 hrun
      obtain ⟨-, hleads⟩ := hfirst.1 ⟨w, hpackage, rfl⟩
      have hlater := (ih hleads.plain (hleads.unconfigured hs hconfig)).1 ⟨v, hrest, hstore⟩
      exact ⟨w.store, hleads, hlater⟩
    · rintro ⟨x, hleads, hlater⟩
      obtain ⟨w, hpackage, rfl⟩ := hfirst.2 ⟨rfl, hleads⟩
      obtain ⟨v, hrest, hstore⟩ := (ih hleads.plain (hleads.unconfigured hs hconfig)).2 hlater
      exact ⟨v, (bind_of_ok _ hpackage).trans hrest, hstore⟩

/-! ## Batches -/

/-- A batch that succeeds does so with its versions in any order, and leaves the same tree up to the order in which its
tarballs were packed. -/
theorem buildAll_perm (order order' : Listing.Order) {b c : Batch} (hperm : b.versions.Perm c.versions)
    (hnodup : b.versions.Nodup) (haggregate : c.aggregate = b.aggregate) {root : Path} {label : Label}
    {s s' t : Session (List Call)} (hs : s.store.top.Plain) (hconfig : s.store.Unconfigured root)
    (hsame : s'.store = s.store) {paths : List Path}
    (h : buildAll (Imitation.executor none order) b root label s = (.ok paths, t)) :
    ∃ t', buildAll (Imitation.executor none order') c root label s' = (.ok paths, t') ∧
      t.store.Repacked (s.store.spelled root) t'.store ∧ (order' = order → t'.store = t.store) := by
  have hsteps (order : Listing.Order) (b : Batch) : buildAll (Imitation.executor none order) b root label =
      releaseEach (Imitation.executor none order) b root label b.versions >>= fun _ => packOutputs order b root := rfl
  rw [hsteps] at h ⊢
  obtain ⟨_, u, hreleased, hpacked⟩ := bind_eq_ok.1 h
  have hleads := (releaseEach_iff_leadsThrough order hs hconfig).1 ⟨u, hreleased, rfl⟩
  have hleads' := hleads.perm hperm hnodup hs
  rw [← hsame] at hconfig hleads'
  obtain ⟨u', hreleased', hstore⟩ := (releaseEach_iff_leadsThrough (b := c) order' (hsame ▸ hs) hconfig).2 hleads'
  -- what is packed is the same
  obtain ⟨v, hmade, hrepacked, hequal⟩ : ∃ v,
      (if c.aggregate then Archive.aggregateOutputs order' root else pure []) u'.store = (.ok paths, v) ∧
        t.store.Repacked (s.store.spelled root) v ∧ (order' = order → v = t.store) := by
    have hmade := packOutputs_eq_ok_iff.1 ⟨t, hpacked, rfl⟩
    rw [haggregate, hstore]
    cases haggregate : b.aggregate with
    | false =>
      rw [haggregate] at hmade
      obtain ⟨hpaths, hleft⟩ := outcome_inj.1 hmade
      obtain rfl := Except.ok.inj hpaths
      exact ⟨u.store, rfl, hleft ▸ .refl _ _, fun _ => hleft⟩
    | true =>
      rw [haggregate] at hmade
      have hspelled : u.store.spelled root = s.store.spelled root := Store.spelled_congr (hleads.cwd hs) root
      obtain ⟨v, hmade', hrepacked⟩ := Archive.tarballs_repack order' (by decide) (hleads.plain hs) (hleads.plain hs)
        hspelled (.refl _ _) hmade
      refine ⟨v, hmade', hrepacked, ?_⟩
      rintro rfl
      exact (outcome_inj.1 (hmade'.symm.trans hmade)).2
  obtain ⟨t', hpacked', rfl⟩ := packOutputs_eq_ok_iff.2 hmade
  exact ⟨t', (bind_of_ok _ hreleased').trans hpacked', hrepacked, hequal⟩

/-- The order of the versions decides neither whether a batch succeeds nor what it leaves. From a tree without links and
without a configuration file, two batches that differ in the order of their versions either both succeed or both fail
with the imitated tools, in whatever orders directories are listed for them. When they succeed they give the same
tarballs and leave the same tree, but for the order in which the two tarballs were packed, which unpack to the same
trees; with directories listed alike they leave the very same tree. -/
theorem batch_order_is_immaterial {b : Batch} {versions : List Version} (hnodup : b.versions.Nodup)
    (hperm : b.versions.Perm versions) (order order' : Listing.Order) (root : Path) (label : Label)
    {s s' : Session (List Call)} (hs : s.store.top.Plain) (hconfig : s.store.Unconfigured root)
    (hsame : s'.store = s.store) :
    ((∃ paths t, buildAll (Imitation.executor none order) b root label s = (.ok paths, t)) ↔
      ∃ paths t, buildAll (Imitation.executor none order') { b with versions } root label s' = (.ok paths, t)) ∧
    ∀ paths paths' t t', buildAll (Imitation.executor none order) b root label s = (.ok paths, t) →
      buildAll (Imitation.executor none order') { b with versions } root label s' = (.ok paths', t') →
      paths' = paths ∧ t.store.Repacked (s.store.spelled root) t'.store ∧ (order' = order → t'.store = t.store) := by
  refine ⟨⟨?_, ?_⟩, ?_⟩
  · rintro ⟨paths, t, hrun⟩
    obtain ⟨t', hrun', -⟩ :=
      buildAll_perm order order' (c := { b with versions }) hperm hnodup rfl hs hconfig hsame hrun
    exact ⟨paths, t', hrun'⟩
  · rintro ⟨paths, t, hrun⟩
    rw [← hsame] at hs hconfig
    obtain ⟨t', hrun', -⟩ := buildAll_perm order' order (b := { b with versions }) hperm.symm
      (hperm.nodup_iff.1 hnodup) rfl hs hconfig hsame.symm hrun
    exact ⟨paths, t', hrun'⟩
  · intro paths paths' t t' hrun hrun'
    obtain ⟨t'', hrun'', hstores⟩ :=
      buildAll_perm order order' (c := { b with versions }) hperm hnodup rfl hs hconfig hsame hrun
    obtain ⟨hpaths, rfl⟩ := outcome_inj.1 (hrun'.symm.trans hrun'')
    exact ⟨Except.ok.inj hpaths, hstores⟩

/-- A session of the imitated tools that begins in the small checkout. -/
abbrev smallDirect : Session (List Call) := .start ⟨smallCheckout, []⟩ [] ⟨none, []⟩ false

/-- The small checkout has no configuration file. -/
theorem no_config_smallCheckout (content : Content) (executable : Bool) :
    smallCheckout.look (smallSession.store.spelled ⟨"/r"⟩ ++ [Bytes.ofString Config.fileName]) ≠
      some (.file content executable) := by
  have hnone : smallCheckout.look (smallSession.store.spelled ⟨"/r"⟩ ++ [Bytes.ofString Config.fileName]) = none := by
    decide +kernel
  rw [hnone]
  simp

/-- In the small checkout two versions are released in either order, with directories listed upwards or downwards. -/
theorem small_batch_in_either_order :
    packedBatch.versions.Nodup ∧ packedBatch.versions.Perm [.v280, .v279] ∧ smallDirect.store.top.Plain ∧
      smallDirect.store.Unconfigured ⟨"/r"⟩ ∧ ∃ paths t t',
        buildAll (Imitation.executor none .ascending) packedBatch ⟨"/r"⟩ smallLabel smallDirect = (.ok paths, t) ∧
        buildAll (Imitation.executor none .descending) { packedBatch with versions := [.v280, .v279] } ⟨"/r"⟩ smallLabel
          smallDirect = (.ok paths, t') ∧ t.store.Repacked (smallDirect.store.spelled ⟨"/r"⟩) t'.store := by
  have hnodup : packedBatch.versions.Nodup := by decide
  have hperm : packedBatch.versions.Perm [.v280, .v279] := .swap _ _ _
  have hplain : smallDirect.store.top.Plain := plain_smallCheckout
  have hconfig : smallDirect.store.Unconfigured ⟨"/r"⟩ := no_config_smallCheckout
  have hsame : smallDirect.store = smallDirect.store := rfl
  have hsmall := batch_order_is_immaterial hnodup hperm .ascending .descending ⟨"/r"⟩ smallLabel hplain hconfig hsame
  have hdone : (buildAll (Imitation.executor none .ascending) packedBatch ⟨"/r"⟩ smallLabel
      smallDirect).1.toBool = true := by
    decide +kernel
  refine ⟨hnodup, hperm, hplain, hconfig, ?_⟩
  cases hrun : buildAll (Imitation.executor none .ascending) packedBatch ⟨"/r"⟩ smallLabel smallDirect with
  | mk result t =>
    rw [hrun] at hdone
    cases result with
    | error _ => cases hdone
    | ok paths =>
      obtain ⟨paths', t', hrun'⟩ := hsmall.1.1 ⟨paths, t, hrun⟩
      obtain ⟨rfl, hrepacked, -⟩ := hsmall.2 paths paths' t t' hrun hrun'
      exact ⟨paths', t, t', rfl, hrun', hrepacked⟩

end StubRelease
