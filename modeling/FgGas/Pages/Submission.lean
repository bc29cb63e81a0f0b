import FgGas.Agreements.ActionHistory
import FgGas.Machine.NumberText
import FgGas.Pages.BoundPages

/-!
# Submitting a form

A form of a page that was shown, submitted with the ETag of the page and with values that meet the
requirements it lists, is never refused for the action it names or for the values: the attempt goes
on to execute the action, unless the agreement or its definition has changed since, and then it is
stale. Whether the action executes and commits is not said.
-/

namespace FgGas.Pages

open Machine Processes Agreements Store

variable {P V : Type}

/-- The configuration version in an ETag. -/
def configVersionText (d : PageLifecycle P) : String := d.configVersion.getD "undefined"

/-- `toEtag`. -/
def toEtag (agreementNumber : String) (version : ℕ) (resolvedConfigVersion : String) : String :=
  "\"" ++ agreementNumber ++ ":" ++ String.ofList (Nat.toDigits 10 version) ++ ":" ++
    resolvedConfigVersion ++ "\""

/-- `loadCurrentAgreementActionContext`, of a loaded definition, with what `validate` says of the
submitted values. -/
def loadCurrentAgreementActionContext (d : PageLifecycle P) (agreement : Agreement V)
    (actionName : String) (values : List (String × Data)) : Agreements.ActionContext where
  etag := toEtag agreement.agreementNumber agreement.version (configVersionText d)
  action := do
    let action ← (d.resolveAction agreement.state actionName).mapError refusalMessage
    return ⟨action.target, (validationErrors action values).isEmpty⟩

/-- Values that meet the requirements that are listed in a form. -/
def Meets (values : List (String × Data)) (requirements : List (String × String)) : Prop :=
  ∀ requirement ∈ requirements,
    matchesConfiguredValue (field values requirement.1) (.string requirement.2) = true

/-- A use case, once it is told what it asks. -/
def answered {K S D E N A R : Type} (outside : D) :
    UseCase K S D E N A R → UseCase K S D E N A R
  | .ask next => next outside
  | useCase => useCase

/-- The forms of a page model. -/
def HoldsForm (model : PageModel) (form : List (String × Data)) : Prop :=
  kindOf form = "form" ∧ ∃ within,
    (Reaches within (.object form) false (.array model.components) ∨
      ∃ s ∈ model.sections.getD [], Reaches within (.object form) false (.array s.components))

section
variable {agreementNumber configVersion configVersion' : String} {version version' : ℕ}

/-- The digits of the version end at the colon. -/
theorem toEtag_inj (h : toEtag agreementNumber version configVersion =
    toEtag agreementNumber version' configVersion') :
    version = version' ∧ configVersion = configVersion' := by
  have hdigits {n : ℕ} {rest : List Char} :
      (Nat.toDigits 10 n ++ ':' :: rest).takeWhile Char.isDigit = Nat.toDigits 10 n ∧
        (Nat.toDigits 10 n ++ ':' :: rest).dropWhile Char.isDigit = ':' :: rest :=
    digits_then (fun c hc ↦ Nat.isDigit_of_mem_toDigits (by omega) (by omega) hc) rfl
  have hlists := congrArg String.toList h
  simp only [toEtag, String.toList_append, String.toList_ofList, List.append_assoc,
    List.append_cancel_left_eq] at hlists
  have hcolon : ":".toList = [':'] := rfl
  simp only [hcolon, List.singleton_append] at hlists
  have hversion := congrArg (List.takeWhile Char.isDigit) hlists
  have hrest := congrArg (List.dropWhile Char.isDigit) hlists
  rw [hdigits.1, hdigits.1] at hversion
  rw [hdigits.2, hdigits.2] at hrest
  refine ⟨?_, ?_⟩
  · rw [← @Nat.ofDigitChars_ten_toDigits version, hversion, Nat.ofDigitChars_ten_toDigits]
  · exact String.toList_inj.mp (List.append_cancel_right (List.cons.inj hrest).2)

end

section
variable {d d' : PageLifecycle P} {a b : Agreement V} {s : ActionStore V}

/-- Of the agreements known, one has each version. -/
theorem eq_of_known (hs : History s) (ha : Known a s) (hb : Known b s)
    (h : a.version = b.version) : a = b := by
  obtain ⟨-, v, hv, hva, hasnap⟩ := ha
  obtain ⟨-, w, hw, hwb, hbsnap⟩ := hb
  obtain rfl := hs.version_unique hv hw (by rw [hva, hwb, h])
  rw [← hasnap, hbsnap]

theorem validationErrors_isEmpty {action : AgreementAction (List RequiredField)}
    {values : List (String × Data)} (h : Meets values (submissionRequirements action)) :
    (validationErrors action values).isEmpty = true := by
  refine List.isEmpty_iff.mpr (List.filter_eq_nil_iff.mpr fun requirement hrequirement ↦ ?_)
  rw [h _ (List.mem_map_of_mem hrequirement)]
  exact Bool.false_ne_true

/-- The ETag of what is loaded is the ETag of what was shown just when nothing has changed. -/
theorem toEtag_eq_iff (hs : History s) (ha : Known a s) (hb : Known b s)
    (hpublished : configVersionText d' = configVersionText d → d' = d) :
    toEtag a.agreementNumber a.version (configVersionText d) =
        toEtag b.agreementNumber b.version (configVersionText d') ↔ b = a ∧ d' = d := by
  constructor
  · intro h
    rw [ha.1, hb.1] at h
    obtain ⟨hversion, hconfig⟩ := toEtag_inj h
    exact ⟨eq_of_known hs hb ha hversion.symm, hpublished hconfig.symm⟩
  · rintro ⟨rfl, rfl⟩
    rfl

end

/-- A request that submits values to an action, with the ETag of the agreement as it was shown;
what is loaded for it may be another version, or another definition. -/
structure Submits (options : ActionOptions) (outside : ActionOutside V) (action : String)
    (values : List (String × Data)) (d d' : PageLifecycle P) (shown loaded : Agreement V) :
    Prop where
  name : options.actionName = action
  ifMatch : options.ifMatch =
    some (toEtag shown.agreementNumber shown.version (configVersionText d))
  context : outside.context = .ok (loadCurrentAgreementActionContext d' loaded action values)

section
variable {d d' : PageLifecycle P} {shown loaded : Agreement V} {s : ActionStore V}
  {values : List (String × Data)} {options : ActionOptions} {outside : ActionOutside V}
  {action : String}

theorem attempt_stale (h : Submits options outside action values d d' shown loaded)
    (hne : toEtag shown.agreementNumber shown.version (configVersionText d) ≠
      toEtag loaded.agreementNumber loaded.version (configVersionText d')) :
    answered outside (executeAgreementActionAttempt options loaded) =
      failAttempt options loaded none .stale := by
  have hmatch : options.ifMatch.any
      (· ≠ (loadCurrentAgreementActionContext d' loaded action values).etag) = true := by
    rw [h.ifMatch, Option.any_some]
    exact decide_eq_true hne
  rw [executeAgreementActionAttempt, answered, h.context]
  exact if_pos hmatch

theorem attempt_executes (h : Submits options outside action values d d shown shown)
    {resolved : AgreementAction (List RequiredField)}
    (haction : d.resolveAction shown.state action = .ok resolved)
    (hmeets : Meets values (submissionRequirements resolved)) :
    answered outside (executeAgreementActionAttempt options shown) =
      executeAndCommit options shown resolved.target := by
  have hresolved : (loadCurrentAgreementActionContext d shown action values).action =
      .ok ⟨resolved.target, true⟩ := by
    rw [loadCurrentAgreementActionContext, haction, ← validationErrors_isEmpty hmeets]
    rfl
  have hmatch : options.ifMatch.any
      (· ≠ (loadCurrentAgreementActionContext d shown action values).etag) = false := by
    rw [h.ifMatch, Option.any_some]
    exact decide_eq_false (not_not_intro rfl)
  rw [executeAgreementActionAttempt, answered, h.context]
  dsimp only
  rw [hmatch, if_neg Bool.false_ne_true, hresolved]
  exact if_neg (not_not_intro h.ifMatch)

end

section
variable {o : Outside} {depth : ℕ} {d : PageLifecycle PageDefinition}
  {templates outputs data : Data} {page : String} {includeSections : Bool}

theorem formBound_of_holdsForm {c : ActionContext} {model : PageModel}
    {form : List (String × Data)} (h : BoundModel c model) (hform : HoldsForm model form) :
    FormBound c form := by
  obtain ⟨hkind, within, hreaches | ⟨s, hs, hreaches⟩⟩ := hform
  · exact (h.components within form hreaches).1 hkind
  · exact (h.sections s hs within form hreaches).1 hkind

/-- A form of a page that was shown posts to an action of the state it was shown in, and lists what
the action requires. Whenever values that meet this are submitted to the action, with the ETag of
the page: if the agreement and its definition are as they were shown, the attempt goes on to execute
the action and to commit its target; otherwise, whatever has been done to the agreement since, the
request is refused as stale. -/
theorem submitted_form (shown : Agreement V) {model : PageModel} {form : List (String × Data)}
    (hbuilt : (buildPageModel o depth d templates ⟨shown.agreementNumber, shown.state, data⟩ outputs
      ⟨page, includeSections, false⟩).result = .ok model) (hform : HoldsForm model form) :
    ∃ action resolved, d.resolveAction shown.state action = .ok resolved ∧
      form.lookup "formAction" = some (.string (actionHref shown.agreementNumber action)) ∧
      form.lookup "submissionRequirements" =
        some (requirementsData (submissionRequirements resolved)) ∧
      ∀ (s : ActionStore V) (loaded : Agreement V) (d' : PageLifecycle PageDefinition)
        (values : List (String × Data)) (options : ActionOptions) (outside : ActionOutside V),
        History s → Known shown s → Known loaded s →
        (configVersionText d' = configVersionText d → d' = d) →
        Meets values (submissionRequirements resolved) →
        Submits options outside action values d d' shown loaded →
          (loaded = shown ∧ d' = d →
            answered outside (executeAgreementActionAttempt options loaded) =
              executeAndCommit options shown resolved.target) ∧
          (¬(loaded = shown ∧ d' = d) →
            answered outside (executeAgreementActionAttempt options loaded) =
              failAttempt options loaded none .stale) := by
  have hbound := formBound_of_holdsForm (buildPageModel_bound.result model hbuilt) hform
  obtain ⟨action, resolved, hresolved, haction, hrequirements⟩ := hbound.action
  refine ⟨action, resolved, hresolved, haction, hrequirements, ?_⟩
  intro s loaded d' values options outside hs hshown hloaded hpublished hmeets hsubmits
  refine ⟨?_, fun hchanged ↦ ?_⟩
  · rintro ⟨rfl, rfl⟩
    exact attempt_executes hsubmits hresolved hmeets
  · exact attempt_stale hsubmits ((toEtag_eq_iff hs hshown hloaded hpublished).not.mpr hchanged)

end

/-! ### A form that accepts an offer -/

/-- The fields of the form that stay as they are. -/
def offerFields : List (String × Data) :=
  [("component", .string "form"), ("action", .string "accept")]

/-- The form. -/
def offerForm : List (String × Data) := offerFields ++ [("components", .array [])]

/-- The page with the form. -/
def offerPage : PageDefinition where
  title := .undefined
  layout := .undefined
  contents := .undefined
  print := .undefined
  watermarks := []
  backLink := .undefined
  components := [.object offerForm]
  sections := []

/-- What accepting requires. -/
def acceptRequirement : RequiredField :=
  ⟨"confirm", "yes", "#confirm", "Confirm that you accept the offer"⟩

/-- The definition: an offer is accepted. -/
def offerLifecycle : PageLifecycle PageDefinition where
  code := "woodland"
  createTarget := "offered"
  states := [("offered", ⟨some "offer",
      some [("accept", ⟨"accepted", some "offer", some [acceptRequirement]⟩)]⟩),
    ("accepted", ⟨none, none⟩)]
  configVersion := some "1.0.0"
  pages := [("offer", offerPage)]

/-- The agreement that is offered. -/
def offeredAgreement : Agreement Unit where
  agreementNumber := "FPTT1"
  version := 1
  code := "woodland"
  clientRef := "client-1"
  configVersion := "1.0.0"
  correlationId := "correlation-1"
  sbi := "106284736"
  values := ()
  state := "offered"
  createdAt := "2026-01-01T00:00:00.000Z"
  updatedAt := "2026-01-01T00:00:00.000Z"
  acceptedAt := none

/-- The form, as it is shown. -/
def shownOfferForm : List (String × Data) :=
  boundForm "FPTT1" "accept" ⟨"offered", "accept", some "offer", "accepted",
    some [acceptRequirement]⟩ (.array []) offerForm

theorem resolveComponent_offerForm {o : Outside} {scope : Scope} :
    (resolveComponent o 0 (.object offerForm) scope).result = .ok [.object offerForm] := by
  have hform : resolveRefs o (.string "form") scope = pure (.string "form") :=
    resolveRefs_of_unmarked (by decide) (by simp)
  have haccept : resolveRefs o (.string "accept") scope = pure (.string "accept") :=
    resolveRefs_of_unmarked (by decide) (by simp)
  have hdisplay :
      resolveDisplayValue o (.object offerFields) scope = pure (.object offerFields) := by
    rw [resolveDisplayValue, if_neg (by decide)]
    simp [offerFields, resolveDisplayValue, hform, haccept]
    rfl
  have hformats : applyFormats o (.object offerFields) = .ok (.object offerFields) := by
    rw [applyFormats]
    simp [offerFields, applyFormats, field, lookup_cons_eq]
    rfl
  have hkept : without "condition" offerForm = offerForm := rfl
  have hhidden : isHidden o offerForm scope = pure false := rfl
  have hkind : kindOf offerForm = "form" := rfl
  have hfields : without "components" offerForm = offerFields := rfl
  have hcomponents : field offerForm "components" = .array [] := rfl
  rw [resolveComponent, if_neg (by decide), hhidden, hkept]
  unfold resolveKind
  rw [hkind]
  dsimp only
  unfold resolveComponentTreeNode
  rw [hcomponents, hfields, hdisplay]
  refine Logged.bind_ok (show (pure false : Rendered Bool).result = .ok false from rfl) ?_
  rw [if_neg Bool.false_ne_true]
  refine Logged.bind_ok (a := (.object offerFields, [])) rfl ?_
  exact Logged.bind_ok hformats rfl

theorem buildPageModel_offer (o : Outside) (templates data outputs : Data) :
    (buildPageModel o 0 offerLifecycle templates ⟨"FPTT1", "offered", data⟩ outputs
      ⟨"offer", false, false⟩).result =
        .ok ⟨[("name", .string "offer")], [.object shownOfferForm], none⟩ := by
  have hcomponents {context : Data} :
      (resolveComponents o 0 offerPage.components context).result = .ok [.object offerForm] := by
    refine Logged.bind_ok (Logged.all_eq_ok.mpr ?_) (a := [[.object offerForm]]) rfl
    exact .cons resolveComponent_offerForm .nil
  have haction :
      requireAction (field offerForm "action") "A \"form\" component" = .ok "accept" := by
    decide
  have hbound : resolvePageActions (actionContext offerLifecycle ⟨"FPTT1", "offered", data⟩)
      ⟨[.object offerForm], []⟩ = .ok ⟨[.object shownOfferForm], []⟩ := by
    have hform : resolveComponentActions (actionContext offerLifecycle ⟨"FPTT1", "offered", data⟩)
        false (.object offerForm) = .ok (.object shownOfferForm) := by
      rw [resolveComponentActions_form rfl, haction]
      have hempty {c : ActionContext} :
          resolveComponentActions c true (field offerForm "components") = .ok (.array []) :=
        resolveComponentActions_array
      exact bind_eq_ok.mpr ⟨"accept", rfl, bind_eq_ok.mpr ⟨_, rfl, bind_eq_ok.mpr ⟨_, hempty, rfl⟩⟩⟩
    exact bind_eq_ok.mpr ⟨_, mapM_eq_ok.mpr (.cons hform .nil), rfl⟩
  refine mapError_ok_iff.mpr (Logged.bind_ok
    (a := ([.object offerForm], [], [("name", .string "offer")]))
    (Logged.both_eq_ok.mpr ⟨hcomponents, rfl⟩) ?_)
  refine Logged.bind_ok hbound rfl

/-- The offer is accepted, as the page was shown. -/
def acceptOptions : ActionOptions where
  actionName := "accept"
  agreementNumber := "FPTT1"
  ifMatch := some (toEtag "FPTT1" 1 "1.0.0")
  idempotencyKey := "key-1"
  accessSource := "defra"
  accessSbi := "106284736"

/-- What is answered to the attempt. -/
def acceptOutside : ActionOutside Unit where
  context := .ok (loadCurrentAgreementActionContext offerLifecycle offeredAgreement "accept"
    [("confirm", .string "yes")])
  definition := .ok ()
  actionForStatus := .ok "accept"
  page := .ok ()
  execution := .ok ⟨"accepted", "2026-01-02T00:00:00.000Z", id, some "1.0.0", []⟩
  publications := .ok ()
  audit := .ok ()
  recorded := true

/-- The agreement as it was created. -/
def offeredStore : ActionStore Unit where
  current := offeredAgreement
  versions := [⟨"FPTT1", 1, offeredAgreement, "2026-01-01T00:00:00.000Z", none⟩]
  outbox := []
  audits := []

theorem submitted_offer :
    answered acceptOutside (executeAgreementActionAttempt acceptOptions offeredAgreement) =
      executeAndCommit acceptOptions offeredAgreement "accepted" := by
  have hform : HoldsForm ⟨[("name", .string "offer")], [.object shownOfferForm], none⟩
      shownOfferForm :=
    ⟨rfl, false, .inl (.item (List.mem_singleton_self _) .here)⟩
  obtain ⟨action, resolved, hresolved, haction, -, h⟩ := submitted_form offeredAgreement
    (buildPageModel_offer (constantOutside "") .undefined (.object []) (.object [])) hform
  have haccept : action = "accept" := by
    have hhref : actionHref "FPTT1" "accept" = actionHref "FPTT1" action :=
      Data.string.inj (Option.some.inj haction)
    have htext := congrArg String.toList hhref
    simp only [actionHref, String.toList_append, List.append_cancel_left_eq] at htext
    exact (String.toList_inj.mp htext).symm
  subst haccept
  obtain rfl := Except.ok.inj hresolved
  have hs : History offeredStore := ⟨rfl, ⟨_, rfl, rfl⟩, List.nodup_nil,
    by simp [offeredStore, offeredAgreement], by simp [offeredStore]⟩
  have hknown : Known offeredAgreement offeredStore :=
    ⟨rfl, _, List.mem_singleton_self _, rfl, rfl⟩
  have hmeets : Meets [("confirm", .string "yes")] [("confirm", "yes")] := fun requirement h ↦ by
    rw [List.mem_singleton.mp h]
    decide
  exact (h offeredStore offeredAgreement offerLifecycle [("confirm", .string "yes")] acceptOptions
    acceptOutside hs hknown hknown (fun _ ↦ rfl) hmeets ⟨rfl, rfl, rfl⟩).1 ⟨rfl, rfl⟩

end FgGas.Pages
