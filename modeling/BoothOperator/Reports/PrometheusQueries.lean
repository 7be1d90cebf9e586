import BoothOperator.Lib.PromQl

/-! The queries for the telemetry of a router and the weather at a booth. The values of their
labels are written by a JSON writer, and PromQL reads them by the rules of Go. -/
namespace BoothOperator.Reports

def ROUTER_TELEMETRY_METRICS : List String :=
  ["glinet_battery_charge_percent", "glinet_battery_temperature_celsius",
    "glinet_battery_voltage_volts", "glinet_battery_current_amperes",
    "glinet_battery_cycle_count", "glinet_battery_charge_count", "glinet_battery_present",
    "glinet_battery_abnormal", "glinet_battery_abnormal_type", "glinet_charger_present",
    "glinet_charger_online", "glinet_charger_fastcharge", "glinet_charger_charging_status",
    "glinet_charger_input_voltage_limit_volts", "glinet_charger_input_current_limit_amperes",
    "glinet_charger_constant_charge_voltage_volts",
    "glinet_charger_constant_charge_current_max_amperes", "glinet_thermal_temperature_celsius"]

def CURRENT_WEATHER_METRICS : List String :=
  ["booth_outdoor_weather_temperature_celsius", "booth_outdoor_weather_relative_humidity_percent",
    "booth_outdoor_weather_cloud_cover_percent", "booth_outdoor_weather_condition_info",
    "booth_outdoor_weather_observation_timestamp_seconds",
    "booth_outdoor_weather_last_success_timestamp_seconds"]

/-- The JSON text without its first and its last character. -/
def escapePrometheusLabelValue (value : String) : String :=
  String.ofList (Json.quote value).tail.dropLast

/-- `^(a|b|..)$` -/
def metricPattern (metrics : List String) : String := "^(" ++ "|".intercalate metrics ++ ")$"

def buildRouterTelemetrySelector (prometheusJob prometheusInstance : String) : String :=
  "\x7b__name__=~\"" ++ metricPattern ROUTER_TELEMETRY_METRICS ++ "\",job=\"" ++
    escapePrometheusLabelValue prometheusJob ++ "\",instance=\"" ++
    escapePrometheusLabelValue prometheusInstance ++ "\"\x7d"

def buildThermalHistoryQuery (boothId prometheusJob prometheusInstance : String) : String :=
  let boothSelector := "booth_cpu_temperature_celsius\x7bbooth_id=\"" ++
    escapePrometheusLabelValue boothId ++ "\"\x7d"
  let routerLabels := "job=\"" ++ escapePrometheusLabelValue prometheusJob ++ "\",instance=\"" ++
    escapePrometheusLabelValue prometheusInstance ++ "\""
  " or ".intercalate
    [boothSelector,
      "glinet_battery_temperature_celsius\x7b" ++ routerLabels ++ "\x7d",
      "glinet_thermal_temperature_celsius\x7b" ++ routerLabels ++ "\x7d"]

def buildCurrentWeatherQuery (boothId : String) : String :=
  "\x7b__name__=~\"" ++ metricPattern CURRENT_WEATHER_METRICS ++ "\",booth_id=\"" ++
    escapePrometheusLabelValue boothId ++ "\",source=\"open_meteo\"\x7d"

/-! ## Reading them back -/

section Read

variable {text : List Char} {value : String} {rest : List Char}

/-- Between quotes, the escaped value is the JSON text. -/
theorem toList_escapePrometheusLabelValue (value : String) (rest : List Char) :
    '"' :: ((escapePrometheusLabelValue value).toList ++ '"' :: rest) =
      Json.quote value ++ rest := by
  have ends (text : List Char) : (Json.quoteTail text).dropLast ++ ['"'] = Json.quoteTail text := by
    induction text with
    | nil => rfl
    | cons c text ih =>
      have more : Json.quoteTail text ≠ [] := by
        rw [← ih]
        exact List.append_ne_nil_of_right_ne_nil _ (List.cons_ne_nil _ _)
      rw [Json.quoteTail, List.dropLast_append_of_ne_nil more, List.append_assoc, ih]
  rw [escapePrometheusLabelValue, String.toList_ofList, Json.quote, List.tail_cons,
    List.append_cons, ends, List.cons_append]

/-- JSON writes the text as it stands. -/
def isPlain (text : String) : Bool := text.toList.all fun c => Json.escape c = [c]

theorem quoteTail_of_plain (plain : text.all (fun c => Json.escape c = [c]) = true) :
    Json.quoteTail text = text ++ ['"'] := by
  induction text with
  | nil => rfl
  | cons c text ih =>
    rw [List.all_cons, Bool.and_eq_true, decide_eq_true_iff] at plain
    rw [Json.quoteTail, plain.1, ih plain.2]
    rfl

theorem quote_of_plain (plain : isPlain value = true) :
    Json.quote value ++ rest = '"' :: (value.toList ++ '"' :: rest) := by
  rw [Json.quote, quoteTail_of_plain plain, List.cons_append, List.append_assoc]
  rfl

theorem isPlain_append {first second : String} :
    isPlain (first ++ second) = (isPlain first && isPlain second) := by
  rw [isPlain, String.toList_append, List.all_append]
  rfl

/-- The patterns need no escape. -/
theorem isPlain_metricPattern {metrics : List String} (plain : metrics.all isPlain = true) :
    isPlain (metricPattern metrics) = true := by
  have joined : isPlain ("|".intercalate metrics) = true := by
    rw [isPlain, String.toList_intercalate]
    induction metrics with
    | nil => rfl
    | cons first rest ih =>
      rw [List.all_cons, Bool.and_eq_true] at plain
      cases rest with
      | nil => simpa [isPlain] using plain.1
      | cons second rest =>
        rw [List.map_cons, List.map_cons, List.intercalate_cons_cons, List.all_append,
          List.all_append, ← List.map_cons, ih plain.2, Bool.and_true]
        exact Bool.and_eq_true_iff.mpr ⟨plain.1, by decide⟩
  rw [metricPattern, isPlain_append, isPlain_append, joined]
  decide

example : escapePrometheusLabelValue "a\"\\\n\x01" = "a\\\"\\\\\\n\\u0001" := by decide

theorem toList_namePattern : "\x7b__name__=~\"".toList =
    '{' :: ("__name__".toList ++ ['=', '~', '"']) := by simp

theorem toList_instanceLabel : "\",instance=\"".toList =
    '"' :: ',' :: ("instance".toList ++ ['=', '"']) := by simp

theorem toList_closing : "\"\x7d".toList = ['"', '}'] := by simp

theorem toList_buildRouterTelemetrySelector (prometheusJob prometheusInstance : String) :
    (buildRouterTelemetrySelector prometheusJob prometheusInstance).toList =
      '{' :: ("__name__".toList ++ '=' :: '~' ::
        (Json.quote (metricPattern ROUTER_TELEMETRY_METRICS) ++
        ',' :: ("job".toList ++ '=' :: (Json.quote prometheusJob ++
        ',' :: ("instance".toList ++ '=' :: (Json.quote prometheusInstance ++ ['}'])))))) := by
  rw [← toList_escapePrometheusLabelValue prometheusJob,
    ← toList_escapePrometheusLabelValue prometheusInstance,
    quote_of_plain (isPlain_metricPattern (by decide))]
  delta buildRouterTelemetrySelector
  simp only [String.toList_append, List.append_assoc]
  rw [toList_namePattern, toList_instanceLabel, toList_closing,
    (by simp : "\",job=\"".toList = '"' :: ',' :: ("job".toList ++ ['=', '"']))]
  simp only [List.cons_append, List.append_assoc, List.nil_append]

theorem toList_buildCurrentWeatherQuery (boothId : String) :
    (buildCurrentWeatherQuery boothId).toList =
      '{' :: ("__name__".toList ++ '=' :: '~' ::
        (Json.quote (metricPattern CURRENT_WEATHER_METRICS) ++
        ',' :: ("booth_id".toList ++ '=' :: (Json.quote boothId ++
        ',' :: ("source".toList ++ '=' :: (Json.quote "open_meteo" ++ ['}'])))))) := by
  have source : isPlain "open_meteo" = true := by decide
  rw [← toList_escapePrometheusLabelValue boothId, quote_of_plain source,
    quote_of_plain (isPlain_metricPattern (by decide))]
  delta buildCurrentWeatherQuery
  simp only [String.toList_append, List.append_assoc]
  rw [toList_namePattern,
    (by simp : "\",booth_id=\"".toList =
      '"' :: ',' :: ("booth_id".toList ++ ['=', '"'])),
    (by simp : "\",source=\"open_meteo\"\x7d".toList =
      '"' :: ',' :: ("source".toList ++ '=' :: '"' :: ("open_meteo".toList ++ ['"', '}'])))]
  simp only [List.cons_append, List.append_assoc, List.nil_append]

/-- A metric with the labels of the router, before the rest of the query. -/
def routerSelector (metric prometheusJob prometheusInstance : String) (rest : List Char) :
    List Char :=
  metric.toList ++ '{' :: ("job".toList ++ '=' :: (Json.quote prometheusJob ++
    ',' :: ("instance".toList ++ '=' :: (Json.quote prometheusInstance ++ '}' :: rest))))

theorem toList_buildThermalHistoryQuery (boothId prometheusJob prometheusInstance : String) :
    (buildThermalHistoryQuery boothId prometheusJob prometheusInstance).toList =
      "booth_cpu_temperature_celsius".toList ++ '{' :: ("booth_id".toList ++
        '=' :: (Json.quote boothId ++ '}' :: ' ' :: ("or".toList ++ ' ' ::
        routerSelector "glinet_battery_temperature_celsius" prometheusJob prometheusInstance
          (' ' :: ("or".toList ++ ' ' :: routerSelector "glinet_thermal_temperature_celsius"
            prometheusJob prometheusInstance []))))) := by
  have battery : "glinet_battery_temperature_celsius\x7b".toList =
      "glinet_battery_temperature_celsius".toList ++ ['{'] := by simp
  have thermal : "glinet_thermal_temperature_celsius\x7b".toList =
      "glinet_thermal_temperature_celsius".toList ++ ['{'] := by simp
  have booth : "booth_cpu_temperature_celsius\x7bbooth_id=\"".toList =
      "booth_cpu_temperature_celsius".toList ++ '{' :: ("booth_id".toList ++ ['=', '"']) := by
    simp
  simp only [routerSelector, ← toList_escapePrometheusLabelValue]
  delta buildThermalHistoryQuery
  simp only [String.toList_intercalate, List.map_cons, List.map_nil, String.toList_append,
    List.intercalate_cons_cons, List.intercalate_singleton]
  rw [battery, thermal, booth, toList_closing, toList_instanceLabel,
    (by simp : "\x7d".toList = ['}']), (by simp : "\"".toList = ['"']),
    (by simp : "job=\"".toList = "job".toList ++ ['=', '"']),
    (by simp : " or ".toList = ' ' :: ("or".toList ++ [' ']))]
  simp only [List.cons_append, List.append_assoc, List.nil_append]

/-! ### What they select -/

open PromQl in
theorem readQuery_buildRouterTelemetrySelector (prometheusJob prometheusInstance : String) :
    readQuery (buildRouterTelemetrySelector prometheusJob prometheusInstance) = some
      [{ metric := none
         matchers :=
          [⟨"__name__", .regex, Utf8.encode (metricPattern ROUTER_TELEMETRY_METRICS).toList⟩,
            ⟨"job", .equal, Utf8.encode prometheusJob.toList⟩,
            ⟨"instance", .equal, Utf8.encode prometheusInstance.toList⟩] }] := by
  rw [readQuery, toList_buildRouterTelemetrySelector, readTokens_leftBrace,
    readTokens_regex (by decide), readTokens_comma, readTokens_equal (by decide), readTokens_comma,
    readTokens_equal (by decide), readTokens_rightBrace, readTokens]
  rfl

open PromQl in
theorem readQuery_buildCurrentWeatherQuery (boothId : String) :
    readQuery (buildCurrentWeatherQuery boothId) = some
      [{ metric := none
         matchers :=
          [⟨"__name__", .regex, Utf8.encode (metricPattern CURRENT_WEATHER_METRICS).toList⟩,
            ⟨"booth_id", .equal, Utf8.encode boothId.toList⟩,
            ⟨"source", .equal, Utf8.encode "open_meteo".toList⟩] }] := by
  rw [readQuery, toList_buildCurrentWeatherQuery, readTokens_leftBrace,
    readTokens_regex (by decide), readTokens_comma, readTokens_equal (by decide), readTokens_comma,
    readTokens_equal (by decide), readTokens_rightBrace, readTokens]
  rfl

open PromQl in
theorem readTokens_routerSelector {metric : String} (named : isName metric = true)
    (prometheusJob prometheusInstance : String) (rest : List Char) :
    readTokens (routerSelector metric prometheusJob prometheusInstance rest) =
      (readTokens rest).map ([.name metric, .leftBrace,
        .name "job", .op .equal, .string (Utf8.encode prometheusJob.toList), .comma,
        .name "instance", .op .equal, .string (Utf8.encode prometheusInstance.toList),
        .rightBrace] ++ ·) := by
  rw [routerSelector, readTokens_name named rfl, readTokens_leftBrace, readTokens_equal (by decide),
    readTokens_comma, readTokens_equal (by decide), readTokens_rightBrace]
  simp only [Option.map_map]
  rfl

open PromQl in
theorem readQuery_buildThermalHistoryQuery (boothId prometheusJob prometheusInstance : String) :
    readQuery (buildThermalHistoryQuery boothId prometheusJob prometheusInstance) = some
      [⟨some "booth_cpu_temperature_celsius", [⟨"booth_id", .equal, Utf8.encode boothId.toList⟩]⟩,
        ⟨some "glinet_battery_temperature_celsius",
          [⟨"job", .equal, Utf8.encode prometheusJob.toList⟩,
            ⟨"instance", .equal, Utf8.encode prometheusInstance.toList⟩]⟩,
        ⟨some "glinet_thermal_temperature_celsius",
          [⟨"job", .equal, Utf8.encode prometheusJob.toList⟩,
            ⟨"instance", .equal, Utf8.encode prometheusInstance.toList⟩]⟩] := by
  rw [readQuery, toList_buildThermalHistoryQuery, readTokens_name (by decide) rfl,
    readTokens_leftBrace, readTokens_equal (by decide), readTokens_rightBrace, readTokens_space,
    readTokens_name (by decide) rfl, readTokens_space, readTokens_routerSelector (by decide),
    readTokens_space, readTokens_name (by decide) rfl, readTokens_space,
    readTokens_routerSelector (by decide), readTokens]
  rfl

end Read

/-- Between quotes an escaped value is read as that value, up to the quote that was added. So each
query reads as its own selectors, whose labels match the given values and no others. -/
theorem label_values_stay_values :
    (∀ (value : String) (rest : List Char),
      PromQl.readString ('"' :: ((escapePrometheusLabelValue value).toList ++ '"' :: rest)) =
        some (Utf8.encode value.toList, rest)) ∧
    (∀ prometheusJob prometheusInstance : String,
      PromQl.readQuery (buildRouterTelemetrySelector prometheusJob prometheusInstance) = some
        [{ metric := none
           matchers :=
            [⟨"__name__", .regex, Utf8.encode (metricPattern ROUTER_TELEMETRY_METRICS).toList⟩,
              ⟨"job", .equal, Utf8.encode prometheusJob.toList⟩,
              ⟨"instance", .equal, Utf8.encode prometheusInstance.toList⟩] }]) ∧
    (∀ boothId prometheusJob prometheusInstance : String,
      PromQl.readQuery (buildThermalHistoryQuery boothId prometheusJob prometheusInstance) = some
        [⟨some "booth_cpu_temperature_celsius",
            [⟨"booth_id", .equal, Utf8.encode boothId.toList⟩]⟩,
          ⟨some "glinet_battery_temperature_celsius",
            [⟨"job", .equal, Utf8.encode prometheusJob.toList⟩,
              ⟨"instance", .equal, Utf8.encode prometheusInstance.toList⟩]⟩,
          ⟨some "glinet_thermal_temperature_celsius",
            [⟨"job", .equal, Utf8.encode prometheusJob.toList⟩,
              ⟨"instance", .equal, Utf8.encode prometheusInstance.toList⟩]⟩]) ∧
    (∀ boothId : String,
      PromQl.readQuery (buildCurrentWeatherQuery boothId) = some
        [{ metric := none
           matchers :=
            [⟨"__name__", .regex, Utf8.encode (metricPattern CURRENT_WEATHER_METRICS).toList⟩,
              ⟨"booth_id", .equal, Utf8.encode boothId.toList⟩,
              ⟨"source", .equal, Utf8.encode "open_meteo".toList⟩] }]) ∧
    ∀ value other : String,
      Utf8.encode value.toList = Utf8.encode other.toList → value = other := by
  refine ⟨fun value rest => ?_, readQuery_buildRouterTelemetrySelector,
    readQuery_buildThermalHistoryQuery, readQuery_buildCurrentWeatherQuery, ?_⟩
  · rw [toList_escapePrometheusLabelValue, PromQl.readString_quote]
  · intro value other same
    have texts := congrArg Utf8.decode same
    rw [Utf8.decode_encode, Utf8.decode_encode] at texts
    exact String.toList_injective texts

end BoothOperator.Reports
