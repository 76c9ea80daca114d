import EspMesh.Library.JsonText
import EspMesh.Model.AppSpiffs

/-! # `status_handler` of `app_httpd.c`

The page is put together by `sprintf`, one call for each field of the sensor and of the
configuration. A call writes its text with a NUL behind it, which the next one overwrites.
-/

namespace EspMesh
set_option autoImplicit false
open ByteMem LineFile JsonText

/-- The fields of `camera_status_t` that are printed; `framesize` is an enumeration. -/
structure CameraStatus where
  framesize : UInt32
  quality : UInt8
  brightness : Int8
  contrast : Int8
  saturation : Int8
  sharpness : Int8
  specialEffect : UInt8
  wbMode : UInt8
  awb : UInt8
  awbGain : UInt8
  aec : UInt8
  aec2 : UInt8
  aeLevel : Int8
  aecValue : UInt16
  agc : UInt8
  agcGain : UInt8
  gainceiling : UInt8
  bpc : UInt8
  wpc : UInt8
  rawGma : UInt8
  lenc : UInt8
  hmirror : UInt8
  dcw : UInt8
  colorbar : UInt8

/-! ## `sprintf` -/

/-- `%u` -/
def printUnsigned (n : ℕ) : List UInt8 :=
  if n < 10 then [UInt8.ofNat (48 + n)]
  else printUnsigned (n / 10) ++ [UInt8.ofNat (48 + n % 10)]

/-- `%d` -/
def printSigned (z : ℤ) : List UInt8 :=
  if z < 0 then 45 :: printUnsigned z.natAbs else printUnsigned z.natAbs

/-- A format `"\"name\":%u,"`: its name, what is printed, and what stands behind the value. -/
structure JsonField where
  name : List UInt8
  value : List UInt8
  sep : List UInt8

def JsonField.text (f : JsonField) : List UInt8 := stringText f.name ++ colon :: f.value ++ f.sep

/-- `json_response`, and the pointer `p` into it. -/
structure JsonResponse where
  json : Mem
  p : ℕ

def JsonResponse.sprintf (r : JsonResponse) (text : List UInt8) : JsonResponse :=
  ⟨r.json.store r.p (text ++ [0]), r.p + text.length⟩

/-- `*p++ = b` -/
def JsonResponse.put (r : JsonResponse) (b : UInt8) : JsonResponse :=
  ⟨r.json.store r.p [b], r.p + 1⟩

/-! ## The fields -/

/-- There is no comma behind the quality. -/
def sensorFields (s : CameraStatus) : List JsonField :=
  [⟨ofString "framesize", printUnsigned s.framesize.toNat, [comma]⟩,
    ⟨ofString "quality", printUnsigned s.quality.toNat, []⟩,
    ⟨ofString "brightness", printSigned s.brightness.toInt, [comma]⟩,
    ⟨ofString "contrast", printSigned s.contrast.toInt, [comma]⟩,
    ⟨ofString "saturation", printSigned s.saturation.toInt, [comma]⟩,
    ⟨ofString "sharpness", printSigned s.sharpness.toInt, [comma]⟩,
    ⟨ofString "special_effect", printUnsigned s.specialEffect.toNat, [comma]⟩,
    ⟨ofString "wb_mode", printUnsigned s.wbMode.toNat, [comma]⟩,
    ⟨ofString "awb", printUnsigned s.awb.toNat, [comma]⟩,
    ⟨ofString "awb_gain", printUnsigned s.awbGain.toNat, [comma]⟩,
    ⟨ofString "aec", printUnsigned s.aec.toNat, [comma]⟩,
    ⟨ofString "aec2", printUnsigned s.aec2.toNat, [comma]⟩,
    ⟨ofString "ae_level", printSigned s.aeLevel.toInt, [comma]⟩,
    ⟨ofString "aec_value", printUnsigned s.aecValue.toNat, [comma]⟩,
    ⟨ofString "agc", printUnsigned s.agc.toNat, [comma]⟩,
    ⟨ofString "agc_gain", printUnsigned s.agcGain.toNat, [comma]⟩,
    ⟨ofString "gainceiling", printUnsigned s.gainceiling.toNat, [comma]⟩,
    ⟨ofString "bpc", printUnsigned s.bpc.toNat, [comma]⟩,
    ⟨ofString "wpc", printUnsigned s.wpc.toNat, [comma]⟩,
    ⟨ofString "raw_gma", printUnsigned s.rawGma.toNat, [comma]⟩,
    ⟨ofString "lenc", printUnsigned s.lenc.toNat, [comma]⟩,
    ⟨ofString "hmirror", printUnsigned s.hmirror.toNat, [comma]⟩,
    ⟨ofString "dcw", printUnsigned s.dcw.toNat, [comma]⟩,
    ⟨ofString "colorbar", printUnsigned s.colorbar.toNat, []⟩]

/-- `%s`, without quotes around it. -/
def configText (c : SystemConfig) (it : ConfigItem) (sep : List UInt8) : List UInt8 :=
  JsonField.text ⟨it.name, cstr (c it), sep⟩

def configTexts (c : SystemConfig) : List (List UInt8) :=
  [comma :: configText c .routerSsid [comma], configText c .meshId [comma],
    configText c .serverIp [comma], configText c .serverPort [comma], configText c .runMode [comma],
    configText c .maxLayer [comma], configText c .backoffRssi []]

/-! ## The handler -/

/-- The page as it is built over `bytes`, what an earlier page left in `json_response`. -/
def statusHandler (s : CameraStatus) (fopenOk : Bool) (fs : Spiffs) (bytes : ℕ → UInt8) :
    JsonResponse :=
  let r := JsonResponse.put ⟨⟨bytes, []⟩, 0⟩ 123
  let r := ((sensorFields s).map JsonField.text).foldl JsonResponse.sprintf r
  let (ret, config) := getSystemConfig fopenOk fs SystemConfig.zero
  let r := if ret = 0 then (configTexts config).foldl JsonResponse.sprintf r else r
  (r.put 125).put 0

/-- What `httpd_resp_send` sends: `strlen(json_response)` bytes. -/
def JsonResponse.sent (r : JsonResponse) : List UInt8 := cstr (r.json.load 0 r.p)

end EspMesh
